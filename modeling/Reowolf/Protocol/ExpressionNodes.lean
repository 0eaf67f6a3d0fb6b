import Mathlib.Data.List.Indexes
import Reowolf.Library.SerialNumbering
import Reowolf.Library.TreeListing
import Reowolf.Protocol.ExpressionVisits
import Reowolf.Protocol.LinkingStatements

namespace Reowolf

-- An expression and what refers to it.
abbrev ExpressionNode := Expression × ExpressionParent

-- The expressions that an expression refers to.
def ExpressionNode.operands (node : ExpressionNode) : List ExpressionNode :=
  node.1.children.mapIdx fun idx child => (child, .expression node.1 idx node.2)

-- The statements directly in a statement, those of its blocks among them.
def Statement.substatements : Statement → List Statement
  | .block body | .while _ _ body _ | .synchronous _ body _ => body.statements
  | .labeled _ _ body                                       => [body]
  | .if _ _ true_body none _                                => true_body.statements
  | .if _ _ true_body (some false_body) _                   =>
    true_body.statements ++ false_body.statements
  | _                                                       => []

-- The expression that a statement refers to.
def Statement.root : Statement → List ExpressionNode
  | .if this test ..                            => [(test, .if this)]
  | .while this test ..                         => [(test, .while this)]
  | .return this expr                           => [(expr, .return this)]
  | .new this call method arguments definition  => [(.call call method arguments definition, .new this)]
  | .expression this expr                       => [(expr, .expressionStmt this)]
  | _                                           => []

-- An expression of a body is the one of a statement, or an operand of another expression.
inductive BlockOf.Refers (body : BlockStatement) : ExpressionNode → Prop
  | root {top stmt : Statement} {node : ExpressionNode} :
    top ∈ body.statements → Relation.ReflTransGen (fun s s' => s' ∈ s.substatements) top stmt →
    node ∈ stmt.root → Refers body node
  | operand {node node' : ExpressionNode} :
    Refers body node → node' ∈ node.operands → Refers body node'

mutual

-- The expressions in an expression, in the order in which the visitors enter them.
def Expression.nodes : Expression → ExpressionParent → List ExpressionNode
  | .assignment this operation left right, parent =>
    let expr := Expression.assignment this operation left right
    (expr, parent) ::
      (left.nodes (.expression expr 0 parent) ++ right.nodes (.expression expr 1 parent))
  | .binding this bound_to bound_from, parent =>
    let expr := Expression.binding this bound_to bound_from
    (expr, parent) ::
      (bound_to.nodes (.expression expr 0 parent) ++ bound_from.nodes (.expression expr 1 parent))
  | .conditional this test true_expression false_expression, parent =>
    let expr := Expression.conditional this test true_expression false_expression
    (expr, parent) ::
      (test.nodes (.expression expr 0 parent) ++ (true_expression.nodes (.expression expr 1 parent) ++
        false_expression.nodes (.expression expr 2 parent)))
  | .binary this operation left right, parent =>
    let expr := Expression.binary this operation left right
    (expr, parent) ::
      (left.nodes (.expression expr 0 parent) ++ right.nodes (.expression expr 1 parent))
  | .unary this operation expression, parent =>
    let expr := Expression.unary this operation expression
    (expr, parent) :: expression.nodes (.expression expr 0 parent)
  | .indexing this subject index, parent =>
    let expr := Expression.indexing this subject index
    (expr, parent) ::
      (subject.nodes (.expression expr 0 parent) ++ index.nodes (.expression expr 1 parent))
  | .slicing this subject from_index to_index, parent =>
    let expr := Expression.slicing this subject from_index to_index
    (expr, parent) ::
      (subject.nodes (.expression expr 0 parent) ++ (from_index.nodes (.expression expr 1 parent) ++
        to_index.nodes (.expression expr 2 parent)))
  | .select this subject field_name, parent =>
    let expr := Expression.select this subject field_name
    (expr, parent) :: subject.nodes (.expression expr 0 parent)
  | .literal this value values, parent =>
    let expr := Expression.literal this value values
    (expr, parent) :: Expression.listNodes expr parent 0 values
  | .cast this subject, parent =>
    let expr := Expression.cast this subject
    (expr, parent) :: subject.nodes (.expression expr 0 parent)
  | .call this method arguments definition, parent =>
    let expr := Expression.call this method arguments definition
    (expr, parent) :: Expression.listNodes expr parent 0 arguments
  | .variable this identifier, parent => [(.variable this identifier, parent)]

def Expression.listNodes (expr : Expression) (parent : ExpressionParent) (idx : Nat) :
    List Expression → List ExpressionNode
  | []                => []
  | child :: children =>
    child.nodes (.expression expr idx parent) ++ Expression.listNodes expr parent (idx + 1) children

end

mutual

-- The expressions in a statement, in the same order.
def Statement.expressions : Statement → List ExpressionNode
  | .block body             => BlockOf.expressions body
  | .labeled _ _ body       => body.expressions
  | .if this test true_body false_body _ =>
    test.nodes (.if this) ++ (BlockOf.expressions true_body ++ BlockOf.optionExpressions false_body)
  | .while this test body _ => test.nodes (.while this) ++ BlockOf.expressions body
  | .synchronous _ body _   => BlockOf.expressions body
  | .return this expr       => expr.nodes (.return this)
  | .new this call method arguments definition =>
    (Expression.call call method arguments definition).nodes (.new this)
  | .expression this expr   => expr.nodes (.expressionStmt this)
  | .memory .. | .channel .. | .break .. | .continue .. | .goto .. => []

def BlockOf.expressions : BlockStatement → List ExpressionNode
  | ⟨_, statements, _⟩ => Statement.listExpressions statements

def Statement.listExpressions : List Statement → List ExpressionNode
  | []            => []
  | stmt :: stmts => stmt.expressions ++ Statement.listExpressions stmts

def BlockOf.optionExpressions : Option BlockStatement → List ExpressionNode
  | none      => []
  | some body => BlockOf.expressions body

end

section

variable {expr : Expression} {parent : ExpressionParent}

theorem Expression.listNodes_eq {idx : Nat} {exprs : List Expression} :
    Expression.listNodes expr parent idx exprs =
      (exprs.mapIdx fun i child => (child, ExpressionParent.expression expr (idx + i) parent)).flatMap
        fun node => node.1.nodes node.2 := by
  induction exprs generalizing idx with
  | nil => rfl
  | cons child children ih =>
    simp only [Expression.listNodes, ih, List.mapIdx_cons, List.flatMap_cons, Nat.add_zero,
      Nat.add_assoc, Nat.add_comm 1]

theorem Expression.nodes_eq : expr.nodes parent =
    (expr, parent) :: Expression.listNodes expr parent 0 expr.children := by
  cases expr <;> simp only [Expression.nodes, Expression.children, Expression.listNodes, List.append_nil]

end

-- The expressions below an expression.
def ExpressionNode.listing : TreeListing ExpressionNode ExpressionNode where
  own node    := [node]
  children    := ExpressionNode.operands
  list node   := node.1.nodes node.2
  list_eq     := by
    rintro ⟨expr, parent⟩
    rw [Expression.nodes_eq, Expression.listNodes_eq]
    simp only [Nat.zero_add, List.cons_append, List.nil_append, ExpressionNode.operands]
  wellFounded := by
    refine Subrelation.wf ?_ (measure fun node : ExpressionNode => sizeOf node.1).wf
    intro child node hc
    obtain ⟨i, hi, he⟩ := List.mem_mapIdx.mp hc
    subst he
    exact Expression.sizeOf_children (List.getElem_mem hi)

section

variable {body : BlockStatement} {stmt child : Statement}

theorem Statement.listExpressions_eq {stmts : List Statement} :
    Statement.listExpressions stmts = stmts.flatMap Statement.expressions := by
  induction stmts with
  | nil => rfl
  | cons stmt stmts ih => rw [Statement.listExpressions, ih, List.flatMap_cons]

theorem BlockOf.expressions_eq :
    BlockOf.expressions body = body.statements.flatMap Statement.expressions := by
  cases body with
  | mk this statements end_block => exact Statement.listExpressions_eq

theorem Statement.expressions_eq : stmt.expressions =
    (stmt.root.flatMap fun node => node.1.nodes node.2) ++
      stmt.substatements.flatMap Statement.expressions := by
  cases stmt with
  | «if» this test true_body false_body end_if =>
    cases false_body <;>
      simp only [expressions, root, substatements, BlockOf.expressions_eq, BlockOf.optionExpressions,
        List.flatMap_cons, List.flatMap_nil, List.flatMap_append, List.append_nil]
  | _ =>
    simp only [expressions, root, substatements, BlockOf.expressions_eq, List.flatMap_cons,
      List.flatMap_nil, List.append_nil, List.nil_append]

theorem BlockOf.sizeOf_statements (h : stmt ∈ body.statements) : sizeOf stmt < sizeOf body := by
  cases body with
  | mk this statements end_block =>
    have : sizeOf stmt < sizeOf statements := List.sizeOf_lt_of_mem h
    simp only [BlockOf.mk.sizeOf_spec]
    omega

theorem Statement.sizeOf_substatements (h : child ∈ stmt.substatements) : sizeOf child < sizeOf stmt := by
  cases stmt with
  | block body | «while» _ _ body _ | synchronous _ body _ =>
    have := BlockOf.sizeOf_statements h
    simp only [block.sizeOf_spec, while.sizeOf_spec, synchronous.sizeOf_spec]
    omega
  | labeled this label body =>
    cases List.mem_singleton.mp h
    simp only [labeled.sizeOf_spec]
    omega
  | «if» this test true_body false_body end_if =>
    cases false_body with
    | none =>
      have := BlockOf.sizeOf_statements h
      simp only [if.sizeOf_spec]
      omega
    | some false_body =>
      simp only [if.sizeOf_spec, Option.some.sizeOf_spec]
      obtain h | h := List.mem_append.mp h
      · have := BlockOf.sizeOf_statements h
        omega
      · have := BlockOf.sizeOf_statements h
        omega
  | _ => cases h

end

-- The expressions of a statement and the statements in it.
def Statement.listing : TreeListing Statement ExpressionNode where
  own stmt    := stmt.root.flatMap fun node => node.1.nodes node.2
  children    := Statement.substatements
  list        := Statement.expressions
  list_eq _   := Statement.expressions_eq
  wellFounded := Subrelation.wf Statement.sizeOf_substatements (measure sizeOf).wf

section

variable {body : BlockStatement} {node node' : ExpressionNode}

theorem BlockOf.Refers.descend (h : body.Refers node) (hb : ExpressionNode.listing.Below node node') :
    body.Refers node' := by
  induction hb with
  | refl => exact h
  | tail _ hc ih => exact ih.operand hc

theorem BlockOf.Refers.mem (h : body.Refers node) : node ∈ BlockOf.expressions body := by
  suffices h' : ∃ stmt ∈ body.statements, ∃ stmt', Statement.listing.Below stmt stmt' ∧
      ∃ root ∈ stmt'.root, ExpressionNode.listing.Below root node by
    obtain ⟨top, htop, stmt, hstmt, root, hroot, hbelow⟩ := h'
    rw [BlockOf.expressions_eq]
    refine List.mem_flatMap_of_mem htop (Statement.listing.mem_of_below hstmt ?_)
    refine List.mem_flatMap_of_mem hroot ?_
    exact ExpressionNode.listing.mem_of_below hbelow (List.mem_singleton_self _)
  induction h with
  | root htop hstmt hroot => exact ⟨_, htop, _, hstmt, _, hroot, .refl⟩
  | operand _ hc ih =>
    obtain ⟨top, htop, stmt, hstmt, root, hroot, hbelow⟩ := ih
    exact ⟨top, htop, stmt, hstmt, root, hroot, .tail hbelow hc⟩

-- The list of the expressions of a body has exactly the ones that the body refers to.
theorem BlockOf.mem_expressions : node ∈ BlockOf.expressions body ↔ body.Refers node := by
  constructor
  · intro h
    rw [BlockOf.expressions_eq, List.mem_flatMap] at h
    obtain ⟨top, htop, h⟩ := h
    obtain ⟨stmt, hstmt, h⟩ := Statement.listing.mem_list.mp h
    obtain ⟨root, hroot, h⟩ := List.mem_flatMap.mp h
    obtain ⟨node', hbelow, h⟩ := ExpressionNode.listing.mem_list.mp h
    cases List.mem_singleton.mp h
    exact (BlockOf.Refers.root htop hstmt hroot).descend hbelow
  · exact BlockOf.Refers.mem

end

end Reowolf
