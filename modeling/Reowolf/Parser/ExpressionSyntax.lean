import Reowolf.Parser.Expressions
import Reowolf.Parser.TypeRoundTrip

namespace Reowolf.Parser

-- The levels of expressions, from the ones that bind least to the ones that bind most: assignments (1),
-- conditionals (2), binary operators (3 to 13), prefix (14) and postfix expressions (15).
def operand_level : Nat := 3
def prefix_level  : Nat := 14
def postfix_level : Nat := 15

def assignment_token : AssignmentOperator → TokenKind
  | .set          => .equal
  | .concatenated => .atEquals
  | .multiplied   => .starEquals
  | .divided      => .slashEquals
  | .remained     => .percentEquals
  | .added        => .plusEquals
  | .subtracted   => .minusEquals
  | .shiftedLeft  => .shiftLeftEquals
  | .shiftedRight => .shiftRightEquals
  | .bitwiseAnded => .andEquals
  | .bitwiseXored => .caretEquals
  | .bitwiseOred  => .orEquals

def binary_token : BinaryOperator → TokenKind
  | .concatenate      => .at
  | .logicalOr        => .orOr
  | .logicalAnd       => .andAnd
  | .bitwiseOr        => .or
  | .bitwiseXor       => .caret
  | .bitwiseAnd       => .and
  | .equality         => .equalEqual
  | .inequality       => .notEqual
  | .lessThan         => .openAngle
  | .greaterThan      => .closeAngle
  | .lessThanEqual    => .lessEquals
  | .greaterThanEqual => .greaterEquals
  | .shiftLeft        => .shiftLeft
  | .shiftRight       => .shiftRight
  | .add              => .plus
  | .subtract         => .minus
  | .multiply         => .star
  | .divide           => .slash
  | .remainder        => .percent

def unary_token : UnaryOperator → TokenKind
  | .positive   => .plus
  | .negative   => .minus
  | .bitwiseNot => .tilde
  | .logicalNot => .exclamation

def binary_level : BinaryOperator → Nat
  | .concatenate => 3
  | .logicalOr   => 4
  | .logicalAnd  => 5
  | .bitwiseOr   => 6
  | .bitwiseXor  => 7
  | .bitwiseAnd  => 8
  | .equality | .inequality => 9
  | .lessThan | .greaterThan | .lessThanEqual | .greaterThanEqual => 10
  | .shiftLeft | .shiftRight => 11
  | .add | .subtract => 12
  | .multiply | .divide | .remainder => 13

-- The characters of a literal, with a backslash in front of those that would end it otherwise.
def escape (quote : Char) : List Char → List Char
  | [] => []
  | c :: text =>
    if c = quote ∨ c = '\\' then '\\' :: c :: escape quote text else c :: escape quote text

def quoted (quote : Char) (text : List Char) : String :=
  String.ofList (quote :: escape quote text ++ [quote])

def enclose (needs_parens : Bool) (tokens : List Token) : List Token :=
  if needs_parens then .of .openParen :: tokens ++ [.of .closeParen] else tokens

def comma_separated (items : List (List Token)) : List Token :=
  (items.intersperse [.of .comma]).flatten

namespace ExpressionTree

-- The last operand of a conditional takes an assignment operator that comes behind it. So where an
-- assignment cannot stand, a conditional cannot either.
def level : ExpressionTree → Nat
  | assignment ..       => 1
  | conditional ..      => 1
  | binary operation .. => binary_level operation
  | unary ..            => prefix_level
  | _                   => postfix_level

section

variable (written : List ParserTypeVariant → List Token)

-- A literal, given what is printed for the expressions in it.
def print_literal (parser_type : List ParserTypeVariant) (values : List (List Token)) :
    Literal → List Token
  | .null => [.ident "null"]
  | .true => [.ident "true"]
  | .false => [.ident "false"]
  | .character value => [⟨.character, quoted '\'' [value], ""⟩]
  | .string value => [⟨.string, quoted '"' value.toList, ""⟩]
  | .integer unsigned_value => [⟨.integer, toString unsigned_value.toNat, ""⟩]
  | .struct _ fields =>
    written parser_type ++ .of .openCurly :: comma_separated
      (List.zipWith (fun field value => .ident field :: .of .colon :: value) fields values) ++
        [.of .closeCurly]
  | .enum _ «variant» => written parser_type ++ [.of .colonColon, .ident «variant»]
  | .union _ «variant» =>
    written parser_type ++ .of .colonColon :: .ident «variant» ::
      if values.isEmpty then []
      else .of .openParen :: comma_separated values ++ [.of .closeParen]
  | .array => .of .openCurly :: comma_separated values ++ [.of .closeCurly]

mutual

-- An expression with parentheses around those operands that the level of their place does not allow
-- for. Bindings, casts and calls are not printed.
def print : ExpressionTree → List Token
  | assignment operation left right =>
    enclose (left.level < operand_level) left.print ++ .of (assignment_token operation) :: right.print
  | conditional test true_expression false_expression =>
    enclose (test.level < operand_level) test.print ++ .of .question ::
      (true_expression.print ++ .of .colon :: false_expression.print)
  | binary operation left right =>
    enclose (left.level < binary_level operation) left.print ++ .of (binary_token operation) ::
      enclose (right.level < binary_level operation + 1) right.print
  | unary operation expression =>
    .of (unary_token operation) :: enclose (expression.level < prefix_level) expression.print
  | indexing subject index =>
    enclose (subject.level < postfix_level) subject.print ++ .of .openSquare ::
      (index.print ++ [.of .closeSquare])
  | slicing subject from_index to_index =>
    enclose (subject.level < postfix_level) subject.print ++ .of .openSquare ::
      (from_index.print ++ .of .dotDot :: (to_index.print ++ [.of .closeSquare]))
  | select subject field_name =>
    enclose (subject.level < postfix_level) subject.print ++ [.of .dot, .ident field_name]
  | literal value parser_type values => print_literal written parser_type (print_values values) value
  | .variable identifier => [.ident identifier]
  | binding .. | cast .. | call .. => []

def print_values : List ExpressionTree → List (List Token)
  | [] => []
  | value :: values => value.print :: print_values values

end

end

end ExpressionTree

-- The ways to write the type of a literal: with all polymorphic arguments, or without any, which are
-- inferred then. Its first name is a symbol of the module.
inductive TypeWritten (ctx : ExpressionCtx) (definition_id : DefinitionId) :
    List ParserTypeVariant → List Token → Prop
  | explicit {path num args name names} :
    (TypeTree.node (.definition definition_id num) args).WellFormed
      (ctx.type_ctx (.definition ctx.cur_definition)) path →
    path (.definition definition_id num) = name :: names →
    (ctx.symbols.get_symbol_by_name (.module ctx.root_id) name).isSome →
    TypeWritten ctx definition_id (TypeTree.node (.definition definition_id num) args).prefix_order
      (glue_angles ((TypeTree.node (.definition definition_id num) args).print path))
  | inferred {num name names} :
    Spells (ctx.type_ctx (.definition ctx.cur_definition)) (.definition definition_id num)
      (name :: names) →
    (ctx.symbols.get_symbol_by_name (.module ctx.root_id) name).isSome →
    TypeWritten ctx definition_id (.definition definition_id num :: List.replicate num .inferred)
      (path_tokens (name :: names))

-- A literal with a number of expressions in it that can be written down.
inductive LiteralWritten (ctx : ExpressionCtx) (written : List ParserTypeVariant → List Token) :
    Literal → List ParserTypeVariant → Nat → Prop
  | null : ctx.symbols.get_symbol_by_name (.module ctx.root_id) "null" = none →
    LiteralWritten ctx written .null [] 0
  | true : ctx.symbols.get_symbol_by_name (.module ctx.root_id) "true" = none →
    LiteralWritten ctx written .true [] 0
  | false : ctx.symbols.get_symbol_by_name (.module ctx.root_id) "false" = none →
    LiteralWritten ctx written .false [] 0
  | character {value} : value.toNat < 128 → LiteralWritten ctx written (.character value) [] 0
  | string {value} : is_ascii value.toList → LiteralWritten ctx written (.string value) [] 0
  | integer {unsigned_value} : LiteralWritten ctx written (.integer unsigned_value) [] 0
  | struct {definition fields parser_type} :
    (ctx.definitions definition).class = .struct →
    TypeWritten ctx definition parser_type (written parser_type) →
    (∀ field ∈ fields, is_reserved_keyword field = false) →
    LiteralWritten ctx written (.struct definition fields) parser_type fields.length
  | enum {definition «variant» parser_type} :
    (ctx.definitions definition).class = .enum →
    TypeWritten ctx definition parser_type (written parser_type) →
    is_reserved_keyword «variant» = false →
    LiteralWritten ctx written (.enum definition «variant») parser_type 0
  | union {definition «variant» parser_type num} :
    (ctx.definitions definition).class = .union →
    TypeWritten ctx definition parser_type (written parser_type) →
    is_reserved_keyword «variant» = false →
    LiteralWritten ctx written (.union definition «variant») parser_type num
  | array {num} : LiteralWritten ctx written .array [] num

-- The expressions of binary, prefix, postfix, conditional and assignment operators over variables and
-- literals. A variable has neither a reserved name nor that of a symbol of the module.
inductive ExpressionTree.Fragment (ctx : ExpressionCtx)
    (written : List ParserTypeVariant → List Token) : ExpressionTree → Prop
  | assignment {operation left right} :
    left.Fragment ctx written → right.Fragment ctx written →
    Fragment ctx written (.assignment operation left right)
  | conditional {test true_expression false_expression} :
    test.Fragment ctx written → true_expression.Fragment ctx written →
    false_expression.Fragment ctx written →
    Fragment ctx written (.conditional test true_expression false_expression)
  | binary {operation left right} :
    left.Fragment ctx written → right.Fragment ctx written →
    Fragment ctx written (.binary operation left right)
  | unary {operation expression} :
    expression.Fragment ctx written → Fragment ctx written (.unary operation expression)
  | indexing {subject index} :
    subject.Fragment ctx written → index.Fragment ctx written →
    Fragment ctx written (.indexing subject index)
  | slicing {subject from_index to_index} :
    subject.Fragment ctx written → from_index.Fragment ctx written → to_index.Fragment ctx written →
    Fragment ctx written (.slicing subject from_index to_index)
  | select {subject field_name} :
    subject.Fragment ctx written → is_reserved_keyword field_name = Bool.false →
    Fragment ctx written (.select subject field_name)
  | literal {value parser_type values} :
    LiteralWritten ctx written value parser_type values.length →
    (∀ value ∈ values, value.Fragment ctx written) →
    Fragment ctx written (.literal value parser_type values)
  | variable {identifier} :
    is_reserved_keyword identifier = Bool.false →
    ctx.symbols.get_symbol_by_name (.module ctx.root_id) identifier = none →
    Fragment ctx written (.variable identifier)

-- The levels at which a token carries an expression on, and above those the tokens that are looked at
-- behind a name.
def kind_level : TokenKind → Nat
  | .equal | .atEquals | .starEquals | .slashEquals | .percentEquals | .plusEquals | .minusEquals
  | .shiftLeftEquals | .shiftRightEquals | .andEquals | .caretEquals | .orEquals => 1
  | .question => 2
  | .at => 3
  | .orOr => 4
  | .andAnd => 5
  | .or => 6
  | .caret => 7
  | .and => 8
  | .equalEqual | .notEqual => 9
  | .openAngle | .closeAngle | .lessEquals | .greaterEquals => 10
  | .shiftLeft | .shiftRight => 11
  | .plus | .minus => 12
  | .star | .slash | .percent => 13
  | .plusPlus | .minusMinus | .openSquare | .dot => 15
  | .colonColon | .openParen | .openCurly => 16
  | _ => 0

-- What comes next does not carry on an expression of a level or of a higher one.
def Follow (level : Nat) (rest : TokenIter) : Prop :=
  ∀ kind, rest.next = some kind → kind_level kind < level

def value_plain : Literal → Prop
  | .character _ => False
  | .string value => '"' ∉ value.toList ∧ '\\' ∉ value.toList
  | _ => True

mutual

-- Neither character literals nor string literals with characters that have to be escaped.
def ExpressionTree.Plain : ExpressionTree → Prop
  | .assignment _ left right => left.Plain ∧ right.Plain
  | .binding bound_to bound_from => bound_to.Plain ∧ bound_from.Plain
  | .conditional test true_expression false_expression =>
    test.Plain ∧ true_expression.Plain ∧ false_expression.Plain
  | .binary _ left right => left.Plain ∧ right.Plain
  | .unary _ expression => expression.Plain
  | .indexing subject index => subject.Plain ∧ index.Plain
  | .slicing subject from_index to_index => subject.Plain ∧ from_index.Plain ∧ to_index.Plain
  | .select subject _ => subject.Plain
  | .literal value _ values => value_plain value ∧ ExpressionTree.AllPlain values
  | .cast _ subject => subject.Plain
  | .call _ _ arguments _ => ExpressionTree.AllPlain arguments
  | .variable _ => True

def ExpressionTree.AllPlain : List ExpressionTree → Prop
  | [] => True
  | value :: values => value.Plain ∧ ExpressionTree.AllPlain values

end

end Reowolf.Parser
