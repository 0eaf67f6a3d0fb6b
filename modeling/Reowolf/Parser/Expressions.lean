import Mathlib.Algebra.Group.Nat.Defs
import Reowolf.Parser.ParserType

namespace Reowolf.Parser

-- An expression as the parser leaves it, without the number and the spans of a node. Of a type that
-- is written in it, the variants of its elements are kept.
inductive ExpressionTree
  | assignment (operation : AssignmentOperator) (left right : ExpressionTree)
  | binding (bound_to bound_from : ExpressionTree)
  | conditional (test true_expression false_expression : ExpressionTree)
  | binary (operation : BinaryOperator) (left right : ExpressionTree)
  | unary (operation : UnaryOperator) (expression : ExpressionTree)
  | indexing (subject index : ExpressionTree)
  | slicing (subject from_index to_index : ExpressionTree)
  | select (subject : ExpressionTree) (field_name : Identifier)
  | literal (value : Literal) (parser_type : List ParserTypeVariant) (values : List ExpressionTree)
  | cast (to_type : List ParserTypeVariant) (subject : ExpressionTree)
  | call (method : Method) (parser_type : List ParserTypeVariant) (arguments : List ExpressionTree)
      (definition : DefinitionId)
  | «variable» (identifier : Identifier)

-- A definition as the symbol pass leaves it in the arena.
structure NamedDefinition where
  identifier : Identifier
  «class»    : DefinitionClass
  builtin    : Bool
  poly_vars  : List Identifier

-- What parsing an expression reads of the rest of the compiler and of where the expression stands.
structure ExpressionCtx where
  symbols        : SymbolTable
  root_id        : RootId
  definitions    : DefinitionId → NamedDefinition
  cur_definition : DefinitionId

-- The context of a type in an expression, which may be inferred.
def ExpressionCtx.type_ctx (ctx : ExpressionCtx) (cur_scope : SymbolScope) : TypeCtx where
  symbols             := ctx.symbols
  num_poly_vars id    := (ctx.definitions id).poly_vars.length
  poly_vars           := (ctx.definitions ctx.cur_definition).poly_vars
  cur_scope           := cur_scope
  wrapping_definition := ctx.cur_definition
  allow_inference     := true

-- The conversion of the standard library: an optional sign in front of at least one digit, of a
-- number that fits.
def from_str_radix (radix : Nat) (buffer : List Char) : Option (BitVec 64) := do
  let digits := if buffer.head? = some '+' then buffer.tail else buffer
  if digits.isEmpty then none
  let number ← digits.foldlM (fun number char => do
    let digit ← to_digit char
    if digit < radix then some (number * radix + digit) else none) 0
  if number < 2 ^ 64 then some (BitVec.ofNat 64 number) else none
where
  to_digit (char : Char) : Option Nat :=
    if char.isDigit then some (char.toNat - '0'.toNat)
    else if 'a' ≤ char ∧ char ≤ 'z' then some (char.toNat - 'a'.toNat + 10)
    else if 'A' ≤ char ∧ char ≤ 'Z' then some (char.toNat - 'A'.toNat + 10)
    else none

def is_ascii (text : List Char) : Bool := text.all (·.toNat < 128)

-- The radix that a prefix stands for, and the number of the prefix's characters.
def integer_radix : List Char → Nat × Nat × String
  | '0' :: 'b' :: _ | '0' :: 'B' :: _ => (2, 2, "binary")
  | '0' :: 'o' :: _ | '0' :: 'O' :: _ => (8, 2, "octal")
  | '0' :: 'x' :: _ | '0' :: 'X' :: _ => (16, 2, "hexadecimal")
  | _ => (10, 0, "decimal")

-- Separating underscores are taken out. The source's own test of a character passes all of them.
def consume_integer_literal (iter : TokenIter) : Except Failure (BitVec 64 × TokenIter) :=
  match iter with
  | token :: iter =>
    if token.kind = .integer then
      let integer_text := token.text.toList
      let (radix, input_offset, radix_name) := integer_radix integer_text
      let buffer := (integer_text.drop input_offset).filter (· ≠ '_')
      match from_str_radix radix buffer with
      | some number => .ok (number, iter)
      | none => .error (.parseError ("incorrectly formatted " ++ radix_name ++ " number"))
    else
      .error (.parseError "expected an integer literal")
  | [] => .error (.parseError "expected an integer literal")

def parse_escaped_character (v : Char) : Except Failure Char :=
  match v with
  | 'r' => .ok '\r'
  | 'n' => .ok '\n'
  | 't' => .ok '\t'
  | '0' => .ok '\x00'
  | '\\' => .ok '\\'
  | '\'' => .ok '\''
  | '"' => .ok '"'
  | v =>
    -- A graphic character is shown, any other one as the value of its byte.
    if 33 ≤ v.toNat ∧ v.toNat ≤ 126 then
      .error (.parseError ("unsupported escape character '" ++ v.toString ++ "'"))
    else
      .error (.parseError
        ("unsupported escape character with (unsigned) byte value " ++ toString v.toNat))

def consume_character_literal (iter : TokenIter) : Except Failure (Char × TokenIter) :=
  match iter with
  | token :: iter =>
    if token.kind = .character then
      let char_text := token.text.toList
      if !is_ascii char_text then
        .error (.parseError "expected an ASCII character literal")
      else
        match char_text with
        | [] => .error (.parseError "too little characters in character literal")
        | [c] =>
          if c = '\\' then
            .error (.parseError "escape character without subsequent character")
          else
            .ok (c, iter)
        | [c, v] =>
          if c = '\\' then do
            .ok (← parse_escaped_character v, iter)
          else
            .error (.parseError "too many characters in character literal")
        | _ => .error (.parseError "too many characters in character literal")
    else
      .error (.parseError "expected a character literal")
  | [] => .error (.parseError "expected a character literal")

-- What is put into the buffer for the characters of a string.
def push_characters : (was_escape : Bool) → List Char → Except Failure (List Char)
  | _, [] => .ok []
  | was_escape, cur :: text => do
    let pushed ← if was_escape then parse_escaped_character cur else .ok cur
    let buffer ← push_characters (cur = '\\' && !was_escape) text
    .ok (pushed :: buffer)

-- The section of a string literal has its quotation marks in it.
def consume_string_literal (iter : TokenIter) : Except Failure (String × TokenIter) :=
  match iter with
  | token :: iter =>
    if token.kind = .string then
      let text := token.text.toList
      if !is_ascii text then
        .error (.parseError "expected an ASCII string literal")
      else do
        let buffer ← push_characters false text.tail.dropLast
        .ok (String.ofList buffer, iter)
    else
      .error (.parseError "expected a string literal")
  | [] => .error (.parseError "expected a string literal")

abbrev ExpressionConsumer := TokenIter → Except Failure (ExpressionTree × TokenIter)

-- The functions that the levels of expressions call recursively.
structure Recursion where
  consume_expression        : ExpressionConsumer
  consume_prefix_expression : ExpressionConsumer

section

variable (ctx : ExpressionCtx) (rec : Recursion)

def consume_expression_list (iter : TokenIter) :
    Except Failure (List ExpressionTree × TokenIter) :=
  consume_comma_separated .openParen .closeParen rec.consume_expression "an expression"
    "a list of expressions" iter

def consume_struct_field (iter : TokenIter) :
    Except Failure ((Identifier × ExpressionTree) × TokenIter) := do
  let (identifier, iter) ← consume_ident iter
  let iter ← consume_token iter .colon
  let (value, iter) ← rec.consume_expression iter
  .ok ((identifier, value), iter)

def builtin_method (identifier : Identifier) : Except Failure Method :=
  match identifier with
  | "get"    => .ok .get
  | "put"    => .ok .put
  | "fires"  => .ok .fires
  | "create" => .ok .create
  | "length" => .ok .length
  | "assert" => .ok .assert
  | _ => .error .panic

-- What comes behind a type at the start of an expression.
def consume_instantiation (parser_type : List ParserTypeVariant) (iter : TokenIter) :
    Except Failure (ExpressionTree × TokenIter) :=
  match parser_type with
  | [] => .error .panic
  | .definition target_definition_id _ :: _ =>
    let definition := ctx.definitions target_definition_id
    match definition.class with
    | .struct => do
      let (fields, iter) ← consume_comma_separated .openCurly .closeCurly (consume_struct_field rec)
        "a struct field" "a list of struct fields" iter
      .ok (.literal (.struct target_definition_id (fields.map Prod.fst)) parser_type
        (fields.map Prod.snd), iter)
    | .enum => do
      let iter ← consume_token iter .colonColon
      let («variant», iter) ← consume_ident iter
      .ok (.literal (.enum target_definition_id «variant») parser_type [], iter)
    | .union => do
      let iter ← consume_token iter .colonColon
      let («variant», iter) ← consume_ident iter
      let (values, iter) ←
        if iter.next = some .openParen then consume_expression_list rec iter else .ok ([], iter)
      .ok (.literal (.union target_definition_id «variant») parser_type values, iter)
    | .component => do
      let (arguments, iter) ← consume_expression_list rec iter
      .ok (.call .userComponent parser_type arguments target_definition_id, iter)
    | .function => do
      let method ← if definition.builtin then builtin_method definition.identifier
        else .ok .userFunction
      let (arguments, iter) ← consume_expression_list rec iter
      .ok (.call method parser_type arguments target_definition_id, iter)
  | _ => .error (.parseError "unexpected type in expression")

-- An identifier that is not a symbol of the module.
def consume_keyword_or_variable (ident_text : Identifier) (iter : TokenIter) :
    Except Failure (ExpressionTree × TokenIter) :=
  if ident_text = "null" then
    .ok (.literal .null [] [], iter)
  else if ident_text = "true" then
    .ok (.literal .true [] [], iter)
  else if ident_text = "false" then
    .ok (.literal .false [] [], iter)
  else if ident_text = "let" then do
    let (bound_to, iter) ← rec.consume_prefix_expression iter
    let iter ← consume_token iter .equal
    let (bound_from, iter) ← rec.consume_prefix_expression iter
    .ok (.binding bound_to bound_from, iter)
  else if ident_text = "cast" then do
    let (to_type, iter) ←
      if iter.next = some .openAngle then do
        let (elements, iter) ←
          consume_parser_type (ctx.type_ctx (.module ctx.root_id)) 1 iter.consume
        .ok (elements.map (·.variant), iter)
      else
        .ok ([.inferred], iter)
    let iter ← consume_token iter .openParen
    let (subject, iter) ← rec.consume_expression iter
    let iter ← consume_token iter .closeParen
    .ok (.cast to_type subject, iter)
  else
    match iter.next with
    | some .colonColon => .error (.parseError "unknown identifier")
    | some .openParen =>
      .error (.parseError ("unknown identifier, did you mistype a union variant's, component's, " ++
        "or function's name?"))
    | some .openCurly =>
      .error (.parseError "unknown identifier, did you mistype a struct type's name?")
    | _ => .ok (.variable ident_text, iter)

def consume_primary_expression (iter : TokenIter) : Except Failure (ExpressionTree × TokenIter) :=
  match iter.next with
  | some .openParen => do
    let (result, iter) ← rec.consume_expression iter.consume
    let iter ← consume_token iter .closeParen
    .ok (result, iter)
  | some .openCurly => do
    let (values, iter) ← consume_comma_separated .openCurly .closeCurly rec.consume_expression
      "an expression" "a list of expressions" iter
    .ok (.literal .array [] values, iter)
  | some .integer => do
    let (unsigned_value, iter) ← consume_integer_literal iter
    .ok (.literal (.integer unsigned_value) [] [], iter)
  | some .string => do
    let (value, iter) ← consume_string_literal iter
    .ok (.literal (.string value) [] [], iter)
  | some .character => do
    let (character, iter) ← consume_character_literal iter
    .ok (.literal (.character character) [] [], iter)
  | some .ident => do
    let (ident_text, after_ident) ← consume_any_ident iter
    if (ctx.symbols.get_symbol_by_name (.module ctx.root_id) ident_text).isSome then
      let (elements, iter) ←
        consume_parser_type (ctx.type_ctx (.definition ctx.cur_definition)) 0 iter
      consume_instantiation ctx rec (elements.map (·.variant)) iter
    else
      consume_keyword_or_variable ctx rec ident_text after_ident
  | _ => .error (.parseError "expected an expression")

-- The suffixes of an expression, at most `fuel` of them.
def consume_postfixes : (fuel : Nat) → ExpressionTree → ExpressionConsumer
  | 0, _, _ => .error .fuel
  | fuel + 1, result, iter =>
    match iter.next with
    | some .plusPlus =>
      .error (.parseError "postfix increment is not supported in this language")
    | some .minusMinus =>
      .error (.parseError "prefix increment is not supported in this language")
    | some .openSquare => do
      let (from_index, iter) ← rec.consume_expression iter.consume
      match iter.next with
      | some .dotDot => do
        let (to_index, iter) ← rec.consume_expression iter.consume
        let iter ← consume_token iter .closeSquare
        consume_postfixes fuel (.slicing result from_index to_index) iter
      | some .closeSquare => do
        let iter ← consume_token iter .closeSquare
        consume_postfixes fuel (.indexing result from_index) iter
      | _ => .error (.parseError "unexpected token: expected ']' or '..'")
    | some .dot => do
      let (field_name, iter) ← consume_ident iter.consume
      consume_postfixes fuel (.select result field_name) iter
    | _ => .ok (result, iter)

def consume_postfix_expression : ExpressionConsumer := fun iter => do
  let (result, iter) ← consume_primary_expression ctx rec iter
  consume_postfixes rec (iter.length + 1) result iter

def parse_prefix_token (token : Option TokenKind) : Option UnaryOperator :=
  match token with
  | some .plus        => some .positive
  | some .minus       => some .negative
  | some .tilde       => some .bitwiseNot
  | some .exclamation => some .logicalNot
  | _ => none

def consume_prefix_expression : ExpressionConsumer := fun iter =>
  match parse_prefix_token iter.next with
  | some operation => do
    let (expression, iter) ← rec.consume_prefix_expression iter.consume
    .ok (.unary operation expression, iter)
  | none =>
    match iter.next with
    | some .plusPlus => .error (.parseError "prefix increment is not supported in the language")
    | some .minusMinus => .error (.parseError "prefix decrement is not supported in this language")
    | _ => consume_postfix_expression ctx rec iter

section

variable (match_fn : Option TokenKind → Option BinaryOperator)
  (higher_precedence_fn : ExpressionConsumer)

-- The operators of one level and their right operands, at most `fuel` of them.
def consume_right_operands : (fuel : Nat) → ExpressionTree → ExpressionConsumer
  | 0, _, _ => .error .fuel
  | fuel + 1, result, iter =>
    match match_fn iter.next with
    | some operation => do
      let (right, iter) ← higher_precedence_fn iter.consume
      consume_right_operands fuel (.binary operation result right) iter
    | none => .ok (result, iter)

def consume_generic_binary_expression : ExpressionConsumer := fun iter => do
  let (result, iter) ← higher_precedence_fn iter
  consume_right_operands match_fn higher_precedence_fn (iter.length + 1) result iter

end

def multiply_divide_or_modulus_operator : Option TokenKind → Option BinaryOperator
  | some .star    => some .multiply
  | some .slash   => some .divide
  | some .percent => some .remainder
  | _ => none

def consume_multiply_divide_or_modulus_expression : ExpressionConsumer :=
  consume_generic_binary_expression multiply_divide_or_modulus_operator
    (consume_prefix_expression ctx rec)

def add_or_subtract_operator : Option TokenKind → Option BinaryOperator
  | some .plus  => some .add
  | some .minus => some .subtract
  | _ => none

def consume_add_or_subtract_expression : ExpressionConsumer :=
  consume_generic_binary_expression add_or_subtract_operator
    (consume_multiply_divide_or_modulus_expression ctx rec)

def shift_operator : Option TokenKind → Option BinaryOperator
  | some .shiftLeft  => some .shiftLeft
  | some .shiftRight => some .shiftRight
  | _ => none

def consume_shift_expression : ExpressionConsumer :=
  consume_generic_binary_expression shift_operator (consume_add_or_subtract_expression ctx rec)

def relational_operator : Option TokenKind → Option BinaryOperator
  | some .openAngle     => some .lessThan
  | some .closeAngle    => some .greaterThan
  | some .lessEquals    => some .lessThanEqual
  | some .greaterEquals => some .greaterThanEqual
  | _ => none

def consume_relational_expression : ExpressionConsumer :=
  consume_generic_binary_expression relational_operator (consume_shift_expression ctx rec)

def equality_operator : Option TokenKind → Option BinaryOperator
  | some .equalEqual => some .equality
  | some .notEqual   => some .inequality
  | _ => none

def consume_equality_expression : ExpressionConsumer :=
  consume_generic_binary_expression equality_operator (consume_relational_expression ctx rec)

def bitwise_and_operator : Option TokenKind → Option BinaryOperator
  | some .and => some .bitwiseAnd
  | _ => none

def consume_bitwise_and_expression : ExpressionConsumer :=
  consume_generic_binary_expression bitwise_and_operator (consume_equality_expression ctx rec)

def bitwise_xor_operator : Option TokenKind → Option BinaryOperator
  | some .caret => some .bitwiseXor
  | _ => none

def consume_bitwise_xor_expression : ExpressionConsumer :=
  consume_generic_binary_expression bitwise_xor_operator (consume_bitwise_and_expression ctx rec)

def bitwise_or_operator : Option TokenKind → Option BinaryOperator
  | some .or => some .bitwiseOr
  | _ => none

def consume_bitwise_or_expression : ExpressionConsumer :=
  consume_generic_binary_expression bitwise_or_operator (consume_bitwise_xor_expression ctx rec)

def logical_and_operator : Option TokenKind → Option BinaryOperator
  | some .andAnd => some .logicalAnd
  | _ => none

def consume_logical_and_expression : ExpressionConsumer :=
  consume_generic_binary_expression logical_and_operator (consume_bitwise_or_expression ctx rec)

def logical_or_operator : Option TokenKind → Option BinaryOperator
  | some .orOr => some .logicalOr
  | _ => none

def consume_logical_or_expression : ExpressionConsumer :=
  consume_generic_binary_expression logical_or_operator (consume_logical_and_expression ctx rec)

def concat_operator : Option TokenKind → Option BinaryOperator
  | some .at => some .concatenate
  | _ => none

def consume_concat_expression : ExpressionConsumer :=
  consume_generic_binary_expression concat_operator (consume_logical_or_expression ctx rec)

def consume_conditional_expression : ExpressionConsumer := fun iter => do
  let (test, iter) ← consume_concat_expression ctx rec iter
  if iter.next = some .question then do
    let (true_expression, iter) ← rec.consume_expression iter.consume
    let iter ← consume_token iter .colon
    let (false_expression, iter) ← rec.consume_expression iter
    .ok (.conditional test true_expression false_expression, iter)
  else
    .ok (test, iter)

def parse_assignment_operator : Option TokenKind → Option AssignmentOperator
  | some .equal            => some .set
  | some .atEquals         => some .concatenated
  | some .starEquals       => some .multiplied
  | some .slashEquals      => some .divided
  | some .percentEquals    => some .remained
  | some .plusEquals       => some .added
  | some .minusEquals      => some .subtracted
  | some .shiftLeftEquals  => some .shiftedLeft
  | some .shiftRightEquals => some .shiftedRight
  | some .andEquals        => some .bitwiseAnded
  | some .caretEquals      => some .bitwiseXored
  | some .orEquals         => some .bitwiseOred
  | _ => none

def consume_assignment_expression : ExpressionConsumer := fun iter => do
  let (left, iter) ← consume_conditional_expression ctx rec iter
  match parse_assignment_operator iter.next with
  | some operation => do
    let (right, iter) ← rec.consume_expression iter.consume
    .ok (.assignment operation left right, iter)
  | none => .ok (left, iter)

end

-- The recursion, at most `fuel` calls deep.
def recursion (ctx : ExpressionCtx) : (fuel : Nat) → Recursion
  | 0 => ⟨fun _ => .error .fuel, fun _ => .error .fuel⟩
  | fuel + 1 =>
    ⟨consume_assignment_expression ctx (recursion ctx fuel),
      consume_prefix_expression ctx (recursion ctx fuel)⟩

-- A token is consumed in front of every recursive call.
def consume_expression (ctx : ExpressionCtx) : ExpressionConsumer := fun iter =>
  (recursion ctx (iter.length + 1)).consume_expression iter

end Reowolf.Parser
