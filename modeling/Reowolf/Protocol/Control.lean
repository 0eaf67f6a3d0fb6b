import Reowolf.Library.Machine
import Reowolf.Protocol.LinkingStatements

namespace Reowolf

-- The statements around a point of the program that are still to be completed, innermost first.
inductive ControlFrame
  -- In a block, with the statements that come after the current one.
  | block (body : BlockStatement) (rest : List Statement)
  -- In a branch of an if statement.
  | branch (this : StatementId) (test : Expression) (true_body : BlockStatement)
      (false_body : Option BlockStatement) (end_if : StatementId)
  -- In the body of a while statement, that may have a label directly in front of it.
  | loop (label : Option Identifier) (this : StatementId) (test : Expression) (body : BlockStatement)
      (end_while : StatementId)
  -- In the body of a synchronous statement.
  | sync (this : StatementId) (body : BlockStatement) (end_sync : StatementId)

-- Where control is: before a statement, that may have a label directly in front of it, or at the end
-- of a statement that contains others.
inductive ControlPoint
  | stmt (label : Option Identifier) (stmt : Statement)
  | endBlock (body : BlockStatement)
  | endIf (end_if : StatementId)
  | endWhile (end_while : StatementId)
  | endSync (end_sync : StatementId)

abbrev ControlStack := List ControlFrame

abbrev Control := ControlPoint × ControlStack

-- Labels are passed by when control comes to them from above.
def ControlPoint.enter (label : Option Identifier) : Statement → ControlPoint
  | .labeled _ label body => enter (some label) body
  | entered               => .stmt label entered

-- Where control goes after the current statement.
def ControlStack.after : ControlStack → Option Control
  | [] => none
  | .block body (stmt :: rest) :: stack => some (.enter none stmt, .block body rest :: stack)
  | .block body [] :: stack => some (.endBlock body, stack)
  | .branch _ _ _ _ end_if :: stack => some (.endIf end_if, stack)
  | .loop label this test body end_while :: stack =>
    some (.stmt label (.while this test body end_while), stack)
  | .sync _ _ end_sync :: stack => some (.endSync end_sync, stack)

-- Whether a break or continue statement with the given label is about the loop with this label.
def targets (target label : Option Identifier) : Prop :=
  target = none ∨ target = label

instance (target label : Option Identifier) : Decidable (targets target label) :=
  inferInstanceAs (Decidable (_ ∨ _))

-- The innermost loop with the given label, or the innermost one, and what is around it.
def ControlStack.find_loop (target : Option Identifier) :
    ControlStack → Option (Option Identifier × Statement × StatementId × ControlStack)
  | [] => none
  | .loop label this test body end_while :: stack =>
    if targets target label then some (label, .while this test body end_while, end_while, stack)
    else find_loop target stack
  | _ :: stack => find_loop target stack

-- The labels in front of a statement, with what they are in front of.
def Statement.labels : Statement → List (StatementId × Identifier × Statement)
  | .labeled this label body => (this, label, body) :: body.labels
  | _                        => []

-- The labels of the statements of a block, with the statements that come after them.
def Statement.listLabels :
    List Statement → List ((StatementId × Identifier × Statement) × List Statement)
  | []            => []
  | stmt :: stmts => stmt.labels.map (·, stmts) ++ listLabels stmts

-- The label in the innermost block that has it in front of one of its statements.
def ControlStack.find_label (label : Identifier) : ControlStack → Option Control
  | [] => none
  | .block body _ :: stack =>
    match (Statement.listLabels body.statements).find? (·.1.2.1 = label) with
    | some ((this, label, stmt), rest) =>
      some (.stmt none (.labeled this label stmt), .block body rest :: stack)
    | none => find_label label stack
  | _ :: stack => find_label label stack

-- The structured meaning of the statements.
namespace Control

def first (body : BlockStatement) (stack : ControlStack) : Option Control :=
  ControlStack.after (.block body body.statements :: stack)

def next : Control → Bool → Option Control
  | (.endBlock _, stack), _ | (.endIf _, stack), _ | (.endWhile _, stack), _ | (.endSync _, stack), _ =>
    stack.after
  | (.stmt label stmt, stack), outcome =>
    match stmt with
    | .block body => first body stack
    | .labeled _ label body => some (.stmt (some label) body, stack)
    | .if this test true_body false_body end_if =>
      let stack' := .branch this test true_body false_body end_if :: stack
      if outcome then some (.stmt none (.block true_body), stack')
      else match false_body with
        | some body => some (.stmt none (.block body), stack')
        | none      => some (.endIf end_if, stack)
    | .while this test body end_while =>
      if outcome then some (.stmt none (.block body), .loop label this test body end_while :: stack)
      else some (.endWhile end_while, stack)
    | .synchronous this body end_sync =>
      some (.stmt none (.block body), .sync this body end_sync :: stack)
    | .break _ target =>
      (stack.find_loop target).map fun (_, _, end_while, stack) => (.endWhile end_while, stack)
    | .continue _ target =>
      (stack.find_loop target).map fun (label, stmt, _, stack) => (.stmt label stmt, stack)
    | .goto _ label => stack.find_label label
    | .return .. => none
    | .memory .. | .channel .. | .new .. | .expression .. => stack.after

def visit : Control → StatementId
  | (.stmt _ stmt, _)          => stmt.this
  | (.endBlock body, _)        => body.end_block
  | (.endIf end_if, _)         => end_if
  | (.endWhile end_while, _)   => end_while
  | (.endSync end_sync, _)     => end_sync

def is_test : Control → Bool
  | (.stmt _ (.if ..), _) | (.stmt _ (.while ..), _) => true
  | _ => false

-- The structured semantics as a machine that visits statements.
def machine : Machine Control StatementId where
  visit   := visit
  is_test := is_test
  next    := next

def start (body : BlockStatement) : Control := (.stmt none (.block body), [])

end Control

-- The position that the evaluator goes to when it executes the statement at a position. A return
-- leaves the frame.
def Heap.follow (heap : Heap) (id : StatementId) : Node → Bool → Option StatementId
  | .statement (.block body), _ => heap.next body.this
  | .endBlock _, _ | .endIf _, _ | .endWhile _, _ | .endSynchronous _, _
  | .statement (.memory ..), _ | .statement (.channel ..), _ | .statement (.new ..), _
  | .statement (.expression ..), _ => heap.next id
  | .statement (.labeled _ _ body), _ => some body.this
  | .statement (.if _ _ true_body false_body end_if), test =>
    some (if test then true_body.this else (false_body.map (·.this)).getD end_if)
  | .statement (.while _ _ body end_while), test =>
    some (if test then body.this else end_while)
  | .statement (.break ..), _ | .statement (.continue ..), _ | .statement (.goto ..), _ =>
    heap.target id
  | .statement (.synchronous _ body _), _ => some body.this
  | .statement (.return ..), _ => none

def Node.is_test : Node → Bool
  | .statement (.if ..) | .statement (.while ..) => true
  | _ => false

-- The links of the arena as a machine that visits statements.
def Heap.machine (heap : Heap) (arena : Arena) : Machine StatementId StatementId where
  visit   := id
  is_test := fun id => ((arena.get id).map Node.is_test).getD false
  next    := fun id outcome => (arena.get id).bind fun node => heap.follow id node outcome

end Reowolf
