import Reowolf.Parser.Expressions

namespace Reowolf.Parser

-- A variable as the parser allocates it. Its place and its number are the business of later passes.
structure VariableTree where
  identifier  : Identifier
  parser_type : List ParserTypeVariant

-- The parser puts braces around a body that is a single statement.
structure BlockTree (α : Type) where
  is_implicit : Bool
  statements  : List α

-- A statement as the parser leaves it in the list of its block, without the number and the spans of a
-- node. The end of an if, while or synchronous statement has a place of its own in that list.
inductive StatementTree
  | block (body : BlockTree StatementTree)
  | memory («variable» : VariableTree)
  | channel (from_port to_port : VariableTree)
  | labeled (label : Identifier) (body : StatementTree)
  | «if» (test : ExpressionTree) (true_body : BlockTree StatementTree)
      (false_body : Option (BlockTree StatementTree))
  | endIf
  | «while» (test : ExpressionTree) (body : BlockTree StatementTree)
  | endWhile
  | «break» (label : Option Identifier)
  | «continue» (label : Option Identifier)
  | synchronous (body : BlockTree StatementTree)
  | endSynchronous
  | «return» (expressions : List ExpressionTree)
  | goto (label : Identifier)
  | new (expression : ExpressionTree)
  | expression (expression : ExpressionTree)

abbrev BlockStatementTree := BlockTree StatementTree

def TokenIter.peek (iter : TokenIter) : Option TokenKind := iter.consume.next

def consume_exact_ident (iter : TokenIter) (expected : Identifier) : Except Failure TokenIter := do
  let (ident, iter) ← consume_any_ident iter
  if ident ≠ expected then
    .error (.parseError ("expected the text '" ++ expected ++ "'"))
  else
    .ok iter

-- Only what the program defines can be instantiated, also a function at this point.
def ExpressionTree.is_user_call : ExpressionTree → Bool
  | call method _ _ _ => method = .userComponent || method = .userFunction
  | _ => false

-- What a statement puts into the list of its block.
abbrev StatementConsumer := TokenIter → Except Failure (List StatementTree × TokenIter)

abbrev BlockConsumer := TokenIter → Except Failure (BlockStatementTree × TokenIter)

section

variable (ctx : ExpressionCtx)

def consume_expression_statement : StatementConsumer := fun iter => do
  let (expression, iter) ← consume_expression ctx iter
  let iter ← consume_token iter .semiColon
  .ok ([.expression expression], iter)

-- A declaration starts with a type and a name. If there is none, nothing is consumed.
def maybe_consume_memory_statement (iter : TokenIter) :
    Except Failure (Option (List StatementTree × TokenIter)) :=
  match consume_parser_type (ctx.type_ctx (.definition ctx.cur_definition)) 0 iter with
  | .error (.parseError _) => .ok none
  | .error failure => .error failure
  | .ok (elements, iter) =>
    if iter.next = some .ident then do
      let (identifier, iter) ← consume_ident iter
      let iter ← consume_token iter .equal
      let (initial_expr, iter) ← consume_expression ctx iter
      let iter ← consume_token iter .semiColon
      .ok (some ([.memory ⟨identifier, elements.map (·.variant)⟩,
        .expression (.assignment .set (.variable identifier) initial_expr)], iter))
    else
      .ok none

def consume_channel_statement : StatementConsumer := fun iter => do
  let iter ← consume_exact_ident iter "channel"
  let (inner_port_type, iter) ←
    if iter.next = some .openAngle then do
      let (elements, iter) ← consume_parser_type (ctx.type_ctx (.module ctx.root_id)) 1 iter.consume
      .ok (elements.map (·.variant), iter)
    else
      .ok ([.inferred], iter)
  let (from_identifier, iter) ← consume_ident iter
  let iter ← consume_token iter .arrowRight
  let (to_identifier, iter) ← consume_ident iter
  let iter ← consume_token iter .semiColon
  .ok ([.channel ⟨from_identifier, .output :: inner_port_type⟩ ⟨to_identifier, .input :: inner_port_type⟩],
    iter)

def consume_new_statement : StatementConsumer := fun iter => do
  let iter ← consume_exact_ident iter "new"
  let (expression, iter) ← consume_primary_expression ctx (recursion ctx (iter.length + 1)) iter
  if expression.is_user_call then do
    let iter ← consume_token iter .semiColon
    .ok ([.new expression], iter)
  else
    .error (.parseError "expected a call expression")

def consume_goto_statement : StatementConsumer := fun iter => do
  let iter ← consume_exact_ident iter "goto"
  let (label, iter) ← consume_ident iter
  let iter ← consume_token iter .semiColon
  .ok ([.goto label], iter)

def consume_return_statement : StatementConsumer := fun iter => do
  let iter ← consume_exact_ident iter "return"
  let (expressions, iter) ← consume_comma_separated_until .semiColon "an expression"
    (consume_expression ctx) (iter.length + 1) true iter []
  if expressions.isEmpty then
    .error (.parseError "expected at least one return value")
  else if expressions.length > 1 then
    .error (.parseError "multiple return values are not (yet) supported")
  else
    .ok ([.return expressions], iter)

def consume_maybe_label (iter : TokenIter) : Except Failure (Option Identifier × TokenIter) :=
  if iter.next = some .ident then do
    let (label, iter) ← consume_ident iter
    .ok (some label, iter)
  else
    .ok (none, iter)

def consume_break_statement : StatementConsumer := fun iter => do
  let iter ← consume_exact_ident iter "break"
  let (label, iter) ← consume_maybe_label iter
  let iter ← consume_token iter .semiColon
  .ok ([.break label], iter)

def consume_continue_statement : StatementConsumer := fun iter => do
  let iter ← consume_exact_ident iter "continue"
  let (label, iter) ← consume_maybe_label iter
  let iter ← consume_token iter .semiColon
  .ok ([.continue label], iter)

-- The statements below have statements in them.
variable (rec : StatementConsumer)

-- The statements up to a closing brace, at most `fuel` of them.
def consume_statements : (fuel : Nat) → StatementConsumer
  | 0, _ => .error .fuel
  | fuel + 1, iter =>
    if iter.next = some .closeCurly then
      .ok ([], iter)
    else if iter.next.isNone then
      .error (.parseError "expected a statement or '\x7d'")
    else do
      let (stmts, iter) ← rec iter
      let (stmts', iter) ← consume_statements fuel iter
      .ok (stmts ++ stmts', iter)

def consume_block_statement_without_leading_curly : BlockConsumer := fun iter => do
  let (statements, iter) ← consume_statements rec (iter.length + 1) iter
  let iter ← consume_token iter .closeCurly
  .ok (⟨false, statements⟩, iter)

def consume_block_statement : BlockConsumer := fun iter => do
  let iter ← consume_token iter .openCurly
  consume_block_statement_without_leading_curly rec iter

def consume_block_or_wrapped_statement : BlockConsumer := fun iter =>
  if iter.next = some .openCurly then
    consume_block_statement rec iter
  else do
    let (statements, iter) ← rec iter
    .ok (⟨true, statements⟩, iter)

-- The test of an if or while statement between its parentheses.
def consume_test (iter : TokenIter) : Except Failure (ExpressionTree × TokenIter) := do
  let iter ← consume_token iter .openParen
  let (test, iter) ← consume_expression ctx iter
  let iter ← consume_token iter .closeParen
  .ok (test, iter)

def consume_if_statement : StatementConsumer := fun iter => do
  let iter ← consume_exact_ident iter "if"
  let (test, iter) ← consume_test ctx iter
  let (true_body, iter) ← consume_block_or_wrapped_statement rec iter
  if has_ident iter "else" then do
    let (false_body, iter) ← consume_block_or_wrapped_statement rec iter.consume
    .ok ([.if test true_body (some false_body), .endIf], iter)
  else
    .ok ([.if test true_body none, .endIf], iter)

def consume_while_statement : StatementConsumer := fun iter => do
  let iter ← consume_exact_ident iter "while"
  let (test, iter) ← consume_test ctx iter
  let (body, iter) ← consume_block_or_wrapped_statement rec iter
  .ok ([.while test body, .endWhile], iter)

def consume_synchronous_statement : StatementConsumer := fun iter => do
  let iter ← consume_exact_ident iter "synchronous"
  let (body, iter) ← consume_block_or_wrapped_statement rec iter
  .ok ([.synchronous body, .endSynchronous], iter)

-- The label is put on the first one of the statements behind it.
def consume_labeled_statement : StatementConsumer := fun iter => do
  let (label, iter) ← consume_ident iter
  let iter ← consume_token iter .colon
  let (inner_statements, iter) ← rec iter
  match inner_statements with
  | [] => .error .panic
  | body :: stmts => .ok (.labeled label body :: stmts, iter)

-- A statement that starts with a name.
def consume_named_statement (ident : Identifier) : StatementConsumer := fun iter =>
  if ident = "if" then consume_if_statement ctx rec iter
  else if ident = "while" then consume_while_statement ctx rec iter
  else if ident = "break" then consume_break_statement iter
  else if ident = "continue" then consume_continue_statement iter
  else if ident = "synchronous" then consume_synchronous_statement rec iter
  else if ident = "return" then consume_return_statement ctx iter
  else if ident = "goto" then consume_goto_statement iter
  else if ident = "new" then consume_new_statement ctx iter
  else if ident = "channel" then consume_channel_statement ctx iter
  else if iter.peek = some .colon then consume_labeled_statement rec iter
  else do
    match ← maybe_consume_memory_statement ctx iter with
    | some result => .ok result
    | none => consume_expression_statement ctx iter

-- The source takes for granted that there is a token.
def consume_statement : StatementConsumer := fun iter =>
  match iter with
  | [] => .error .panic
  | token :: _ =>
    if token.kind = .openCurly then do
      let (body, iter) ← consume_block_statement rec iter
      .ok ([.block body], iter)
    else if token.kind = .ident then
      consume_named_statement ctx rec token.text iter
    else
      consume_expression_statement ctx iter

end

-- The recursion, at most `fuel` statements deep.
def statement_recursion (ctx : ExpressionCtx) : (fuel : Nat) → StatementConsumer
  | 0 => fun _ => .error .fuel
  | fuel + 1 => consume_statement ctx (statement_recursion ctx fuel)

-- A procedure's body behind its opening brace. A statement is at least one token.
def consume_body (ctx : ExpressionCtx) : BlockConsumer := fun iter =>
  consume_block_statement_without_leading_curly (statement_recursion ctx (iter.length + 1)) iter

end Reowolf.Parser
