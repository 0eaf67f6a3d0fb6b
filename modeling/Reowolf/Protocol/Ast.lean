import Mathlib.Data.List.Nodup

namespace Reowolf

-- The arena of the source hands out one kind of number for all statements, one for all expressions,
-- one for all variables and one for all definitions. A pointer into the arena to a part of the
-- syntax tree is that part itself here.
abbrev StatementId  := Nat
abbrev ExpressionId := Nat
abbrev VariableId   := Nat
abbrev DefinitionId := Nat
abbrev Identifier   := String

inductive AssignmentOperator
  | set
  | concatenated
  | multiplied
  | divided
  | remained
  | added
  | subtracted
  | shiftedLeft
  | shiftedRight
  | bitwiseAnded
  | bitwiseXored
  | bitwiseOred
deriving DecidableEq

inductive BinaryOperator
  | concatenate
  | logicalOr
  | logicalAnd
  | bitwiseOr
  | bitwiseXor
  | bitwiseAnd
  | equality
  | inequality
  | lessThan
  | greaterThan
  | lessThanEqual
  | greaterThanEqual
  | shiftLeft
  | shiftRight
  | add
  | subtract
  | multiply
  | divide
  | remainder
deriving DecidableEq

inductive UnaryOperator
  | positive
  | negative
  | bitwiseNot
  | logicalNot
deriving DecidableEq

inductive Method
  | get
  | put
  | fires
  | create
  | length
  | assert
  | userFunction
  | userComponent
deriving DecidableEq

-- A literal without the expressions nested in it: the fields of a struct (in the order of the
-- program), the embedded values of a union and the elements of an array are children of the
-- expression node.
inductive Literal
  | null
  | true
  | false
  | character (value : Char)
  | string (value : String)
  | integer (unsigned_value : BitVec 64)
  | struct (definition : DefinitionId) (fields : List Identifier)
  | enum (definition : DefinitionId) (variant : Identifier)
  | union (definition : DefinitionId) (variant : Identifier)
  | array
deriving DecidableEq

inductive Expression
  | assignment (this : ExpressionId) (operation : AssignmentOperator) (left right : Expression)
  | binding (this : ExpressionId) (bound_to bound_from : Expression)
  | conditional (this : ExpressionId) (test true_expression false_expression : Expression)
  | binary (this : ExpressionId) (operation : BinaryOperator) (left right : Expression)
  | unary (this : ExpressionId) (operation : UnaryOperator) (expression : Expression)
  | indexing (this : ExpressionId) (subject index : Expression)
  | slicing (this : ExpressionId) (subject from_index to_index : Expression)
  | select (this : ExpressionId) (subject : Expression) (field_name : Identifier)
  | literal (this : ExpressionId) (value : Literal) (values : List Expression)
  | cast (this : ExpressionId) (subject : Expression)
  | call (this : ExpressionId) (method : Method) (arguments : List Expression)
      (definition : DefinitionId)
  | «variable» (this : ExpressionId) (identifier : Identifier)

structure BlockOf (α : Type) where
  this       : StatementId
  statements : List α
  end_block  : StatementId

-- The parser puts the end statement of an if, while or synchronous statement directly after it in
-- the enclosing block. Here it is part of the statement that it ends.
inductive Statement
  | block (body : BlockOf Statement)
  | memory (this : StatementId) («variable» : VariableId)
  | channel (this : StatementId) (from_id to_id : VariableId)
  | labeled (this : StatementId) (label : Identifier) (body : Statement)
  | «if» (this : StatementId) (test : Expression) (true_body : BlockOf Statement)
      (false_body : Option (BlockOf Statement)) (end_if : StatementId)
  | «while» (this : StatementId) (test : Expression) (body : BlockOf Statement)
      (end_while : StatementId)
  | «break» (this : StatementId) (label : Option Identifier)
  | «continue» (this : StatementId) (label : Option Identifier)
  | synchronous (this : StatementId) (body : BlockOf Statement) (end_sync : StatementId)
  | «return» (this : StatementId) (expression : Expression)
  | goto (this : StatementId) (label : Identifier)
  | new (this : StatementId) (call : ExpressionId) (method : Method) (arguments : List Expression)
      (definition : DefinitionId)
  | expression (this : StatementId) (expression : Expression)

abbrev BlockStatement := BlockOf Statement

namespace Expression

def this : Expression → ExpressionId
  | assignment this .. | binding this .. | conditional this .. | binary this .. | unary this ..
  | indexing this .. | slicing this .. | select this .. | literal this .. | cast this ..
  | call this .. | .variable this .. => this

-- The expressions directly under an expression, from left to right.
def children : Expression → List Expression
  | assignment _ _ left right       => [left, right]
  | binding _ bound_to bound_from   => [bound_to, bound_from]
  | conditional _ test t f          => [test, t, f]
  | binary _ _ left right           => [left, right]
  | unary _ _ e                     => [e]
  | indexing _ subject index        => [subject, index]
  | slicing _ subject from_i to_i   => [subject, from_i, to_i]
  | select _ subject _              => [subject]
  | literal _ _ values              => values
  | cast _ subject                  => [subject]
  | call _ _ arguments _            => arguments
  | .variable ..                    => []

end Expression

namespace Statement

def this : Statement → StatementId
  | block body => body.this
  | memory this .. | channel this .. | labeled this .. | .if this .. | .while this ..
  | .break this .. | .continue this .. | synchronous this .. | .return this .. | goto this ..
  | new this .. | expression this .. => this

-- The number of places that a statement takes in the statements of its block.
def width : Statement → Nat
  | .if .. | .while .. | synchronous .. => 2
  | labeled _ _ body                    => body.width
  | _                                   => 1

end Statement

-- What is stored in the arena of statements.
inductive Node
  | statement (stmt : Statement)
  | endBlock (start_block : StatementId)
  | endIf (start_if : StatementId)
  | endWhile (start_while : StatementId)
  | endSynchronous (start_sync : StatementId)

abbrev Arena := List (StatementId × Node)

mutual

-- The part of the arena that a statement and everything below it fill.
def Statement.nodes : Statement → Arena
  | .block body => BlockOf.nodes body
  | .labeled this label body =>
    (this, .statement (.labeled this label body)) :: body.nodes
  | .if this test true_body false_body end_if =>
    (this, .statement (.if this test true_body false_body end_if)) ::
      (BlockOf.nodes true_body ++ BlockOf.optionNodes false_body) ++ [(end_if, .endIf this)]
  | .while this test body end_while =>
    (this, .statement (.while this test body end_while)) ::
      BlockOf.nodes body ++ [(end_while, .endWhile this)]
  | .synchronous this body end_sync =>
    (this, .statement (.synchronous this body end_sync)) ::
      BlockOf.nodes body ++ [(end_sync, .endSynchronous this)]
  | stmt => [(stmt.this, .statement stmt)]

def BlockOf.nodes : BlockStatement → Arena
  | ⟨this, statements, end_block⟩ =>
    (this, .statement (.block ⟨this, statements, end_block⟩)) ::
      Statement.listNodes statements ++ [(end_block, .endBlock this)]

def Statement.listNodes : List Statement → Arena
  | [] => []
  | stmt :: stmts => stmt.nodes ++ Statement.listNodes stmts

def BlockOf.optionNodes : Option BlockStatement → Arena
  | none => []
  | some body => BlockOf.nodes body

end

def Arena.ids (arena : Arena) : List StatementId := arena.map Prod.fst

-- Indexing the arena.
def Arena.get (arena : Arena) (id : StatementId) : Option Node := arena.lookup id

theorem Arena.get_of_mem {arena : Arena} {id node} (hn : arena.ids.Nodup)
    (h : (id, node) ∈ arena) : arena.get id = some node := by
  induction arena
  case nil => cases h
  case cons entry arena ih =>
    obtain ⟨id', node'⟩ := entry
    simp only [Arena.ids, List.map_cons, List.nodup_cons] at hn
    cases List.mem_cons.mp h
    case inl h =>
      cases h
      simp [Arena.get]
    case inr h =>
      have hne : id ≠ id' := fun he => hn.1 (he ▸ List.mem_map_of_mem h)
      rw [Arena.get, List.lookup_cons, beq_eq_false_iff_ne.mpr hne]
      exact ih hn.2 h

inductive DefinitionKind
  | primitive
  | composite
  | function
deriving DecidableEq

-- A procedure: a primitive component, a composite component or a function.
structure Definition where
  this       : DefinitionId
  kind       : DefinitionKind
  parameters : List VariableId
  body       : BlockStatement

structure Variable where
  identifier            : Identifier
  relative_pos_in_block : Nat
  unique_id_in_scope    : Nat
deriving DecidableEq

-- What the type table says about the base of a type.
inductive DefinedType
  | enum (name : Identifier) (variants : List Identifier)
  | union (name : Identifier) (variants : List (Identifier × Nat))
  | struct (name : Identifier) (fields : List Identifier)
  | function (arguments : Nat)
  | component (arguments : Nat)
deriving DecidableEq

end Reowolf
