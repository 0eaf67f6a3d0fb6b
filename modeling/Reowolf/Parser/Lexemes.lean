import Reowolf.Parser.Tokens

namespace Reowolf.Parser

structure InputPosition where
  line   : Nat
  offset : Nat
deriving DecidableEq

-- A source file. Of the input there is what has not been consumed yet, and a byte of it is the
-- character with its number.
structure InputSource where
  input     : List Char
  pos       : InputPosition
  had_error : Option String
deriving DecidableEq

namespace InputSource

def new (input : List Char) : InputSource := ⟨input, ⟨1, 0⟩, none⟩

def next (source : InputSource) : Option Char := source.input.head?

def lookahead (source : InputSource) (offset : Nat) : Option Char := source.input[offset]?

def carriage_message : String := "Encountered carriage-feed without a following newline"

-- A carriage return has to come before a newline. The first one that does not is an error that is
-- reported at the end of the file.
def consume (source : InputSource) : InputSource :=
  match source.input with
  | [] => source
  | c :: input =>
    { input := input
      pos :=
        { line := if c = '\n' then source.pos.line + 1 else source.pos.line
          offset := source.pos.offset + 1 }
      had_error :=
        if c = '\r' ∧ input.head? ≠ some '\n' then source.had_error.or (some carriage_message)
        else source.had_error }

def consume_times : Nat → InputSource → InputSource
  | 0, source => source
  | n + 1, source => consume_times n source.consume

-- Consumes characters for as long as there are ones that satisfy a test.
def consume_while (p : Char → Bool) (source : InputSource) : InputSource :=
  go source.input source
where
  go : List Char → InputSource → InputSource
    | [], source => source
    | c :: input, source => if p c then go input source.consume else source

end InputSource

-- A token of the buffer.
structure BufferToken where
  kind : TokenKind
  pos  : InputPosition
deriving DecidableEq

inductive TokenRangeKind
  | module
  | pragma
  | «import»
  | definition
  | code
deriving DecidableEq

def is_whitespace (c : Char) : Bool := c ∈ [' ', '\t', '\n', '\x0c', '\r']

def is_char_literal_start (c : Char) : Bool := c = '\''

def is_string_literal_start (c : Char) : Bool := c = '"'

def is_pragma_start_or_pound (c : Char) : Bool := c = '#'

def is_identifier_start (c : Char) : Bool :=
  ('a' ≤ c && c ≤ 'z') || ('A' ≤ c && c ≤ 'Z') || c = '_'

def is_identifier_remaining (c : Char) : Bool :=
  ('0' ≤ c && c ≤ '9') || ('a' ≤ c && c ≤ 'z') || ('A' ≤ c && c ≤ 'Z') || c = '_'

def is_integer_literal_start (c : Char) : Bool := '0' ≤ c && c ≤ '9'

def maybe_number_remaining (c : Char) : Bool :=
  (c = 'o' || c = 'O' || c = 'x' || c = 'X') || ('0' ≤ c && c ≤ '9') || ('A' ≤ c && c ≤ 'F') ||
    ('a' ≤ c && c ≤ 'f') || c = '_'

def is_line_comment_start (first_char : Char) (source : InputSource) : Bool :=
  first_char = '/' && source.lookahead 1 = some '/'

def is_block_comment_start (first_char : Char) (source : InputSource) : Bool :=
  first_char = '/' && source.lookahead 1 = some '*'

def demarks_definition (ident : Identifier) : Bool := is_reserved_definition_keyword ident

def demarks_import (ident : Identifier) : Bool := ident = "import"

def check_ascii (source : InputSource) : Except Failure Unit :=
  match source.next with
  | some c =>
    if c.toNat < 128 then .ok () else .error (.parseError "encountered a non-ASCII character")
  | none => .ok ()

-- The two tokens for what lies between two positions.
def spanned (kind : TokenKind) (begin_pos end_pos : InputPosition) : List BufferToken :=
  [⟨kind, begin_pos⟩, ⟨.spanEnd, end_pos⟩]

namespace PassTokenizer

-- What comes behind the opening quotation mark of a character literal. Yields the last character.
def consume_char_literal_rest : List Char → (prev_char : Char) → InputSource →
    Except Failure (Char × InputSource)
  | [], prev_char, source => .ok (prev_char, source)
  | c :: input, prev_char, source =>
    if c.toNat < 128 then
      if c = '\'' ∧ prev_char ≠ '\\' then
        .ok (c, source.consume)
      else
        consume_char_literal_rest input c source.consume
    else
      .error (.parseError "non-ASCII character in char literal")

def consume_char_literal (source : InputSource) : Except Failure (List BufferToken × InputSource) := do
  let begin_pos := source.pos
  let source := source.consume
  let (prev_char, source) ← consume_char_literal_rest source.input '\'' source
  if prev_char = '\'' then
    .ok (spanned .character begin_pos source.pos, source)
  else
    .error (.parseError "encountered unterminated character literal")

-- Behind an escaped backslash the last character is made one of no meaning.
def consume_string_literal_rest : List Char → (prev_char : Char) → InputSource →
    Except Failure (Char × InputSource)
  | [], prev_char, source => .ok (prev_char, source)
  | c :: input, prev_char, source =>
    if c.toNat < 128 then
      if c = '"' ∧ prev_char ≠ '\\' then
        .ok (c, source.consume)
      else
        consume_string_literal_rest input (if prev_char = '\\' ∧ c = '\\' then '\x00' else c)
          source.consume
    else
      .error (.parseError "non-ASCII character in string literal")

def consume_string_literal (source : InputSource) :
    Except Failure (List BufferToken × InputSource) := do
  let begin_pos := source.pos
  let source := source.consume
  let (prev_char, source) ← consume_string_literal_rest source.input '"' source
  if prev_char = '"' then
    .ok (spanned .string begin_pos source.pos, source)
  else
    .error (.parseError "encountered unterminated string literal")

-- Whether it is a pragma, a pound sign with an identifier behind it.
def consume_pragma_or_pound (source : InputSource) :
    Except Failure (Bool × List BufferToken × InputSource) :=
  let start_pos := source.pos
  let source := source.consume
  if source.next.any is_identifier_start then do
    let source := source.consume.consume_while is_identifier_remaining
    check_ascii source
    .ok (true, spanned .pragma start_pos source.pos, source)
  else
    .ok (false, [⟨.pound, start_pos⟩], source)

-- The newline behind a line comment is consumed with it, though it is not part of its section.
def consume_line_comment (source : InputSource) : List BufferToken × InputSource :=
  let begin_pos := source.pos
  let comment := source.input.takeWhile (· ≠ '\n')
  let source := source.consume_while (· ≠ '\n')
  let end_pos := source.pos
  match source.next with
  | some _ =>
    let newline_offset := if comment.getLast? = some '\r' then 2 else 1
    (spanned .lineComment begin_pos { end_pos with offset := end_pos.offset - newline_offset },
      source.consume)
  | none => (spanned .lineComment begin_pos end_pos, source)

-- What comes behind the opening characters of a block comment, up to the closing ones.
def consume_block_comment_rest : List Char → (prev_char : Char) → InputSource →
    Option InputSource
  | [], _, _ => none
  | c :: input, prev_char, source =>
    if prev_char = '*' ∧ c = '/' then
      some source.consume
    else
      consume_block_comment_rest input c source.consume

def consume_block_comment (source : InputSource) :
    Except Failure (List BufferToken × InputSource) :=
  let begin_pos := source.pos
  let source := source.consume.consume
  match consume_block_comment_rest source.input ' ' source with
  | some source => .ok (spanned .blockComment begin_pos source.pos, source)
  | none => .error (.parseError "encountered unterminated block comment")

def consume_identifier (source : InputSource) :
    Except Failure (Identifier × List BufferToken × InputSource) := do
  let begin_pos := source.pos
  let ident := source.input.take 1 ++ source.input.tail.takeWhile is_identifier_remaining
  let source := source.consume.consume_while is_identifier_remaining
  check_ascii source
  .ok (String.ofList ident, spanned .ident begin_pos source.pos, source)

def consume_number (source : InputSource) : Except Failure (List BufferToken × InputSource) := do
  let begin_pos := source.pos
  let source := source.consume.consume_while maybe_number_remaining
  check_ascii source
  .ok (spanned .integer begin_pos source.pos, source)

-- Whether the whitespace contained a newline.
def consume_whitespace (source : InputSource) : Bool × InputSource :=
  ((source.input.takeWhile is_whitespace).contains '\n', source.consume_while is_whitespace)

-- The kind of punctuation that starts with a character, given the next two.
def punctuation_kind (first_char : Char) (second third : Option Char) : Option TokenKind :=
  match first_char with
  | '!' => if second = some '=' then some .notEqual else some .exclamation
  | '%' => if second = some '=' then some .percentEquals else some .percent
  | '&' =>
    if second = some '&' then some .andAnd
    else if second = some '=' then some .andEquals
    else some .and
  | '(' => some .openParen
  | ')' => some .closeParen
  | '*' => if second = some '=' then some .starEquals else some .star
  | '+' =>
    if second = some '+' then some .plusPlus
    else if second = some '=' then some .plusEquals
    else some .plus
  | ',' => some .comma
  | '-' =>
    if second = some '-' then some .minusMinus
    else if second = some '>' then some .arrowRight
    else if second = some '=' then some .minusEquals
    else some .minus
  | '.' => if second = some '.' then some .dotDot else some .dot
  | '/' => if second = some '=' then some .slashEquals else some .slash
  | ':' => if second = some ':' then some .colonColon else some .colon
  | ';' => some .semiColon
  | '<' =>
    if second = some '<' then
      if third = some '=' then some .shiftLeftEquals else some .shiftLeft
    else if second = some '=' then some .lessEquals
    else some .openAngle
  | '=' => if second = some '=' then some .equalEqual else some .equal
  | '>' =>
    if second = some '>' then
      if third = some '=' then some .shiftRightEquals else some .shiftRight
    else if second = some '=' then some .greaterEquals
    else some .closeAngle
  | '?' => some .question
  | '@' => if second = some '=' then some .atEquals else some .at
  | '[' => some .openSquare
  | ']' => some .closeSquare
  | '^' => if second = some '=' then some .caretEquals else some .caret
  | '\x7b' => some .openCurly
  | '|' =>
    if second = some '|' then some .orOr
    else if second = some '=' then some .orEquals
    else some .or
  | '\x7d' => some .closeCurly
  | '~' => some .tilde
  | _ => none

def maybe_parse_punctuation (first_char : Char) (source : InputSource) :
    Except Failure (Option TokenKind × InputSource) :=
  match punctuation_kind first_char (source.lookahead 1) (source.lookahead 2) with
  | some token_kind => .ok (some token_kind, source.consume_times token_kind.token_chars.length)
  | none => do
    check_ascii source
    .ok (none, source)

-- What one round of the tokenizer consumes: the tokens to be put into the buffer, with the kind of
-- range that they open, whitespace, or a token of punctuation.
inductive Lexeme
  | tokens (tokens : List BufferToken) (opens : Option TokenRangeKind)
  | whitespace (contained_newline : Bool)
  | punctuation (token : BufferToken)
deriving DecidableEq

def opened_by (ident : Identifier) : Option TokenRangeKind :=
  if demarks_definition ident then some .definition
  else if demarks_import ident then some .import
  else none

-- The choice of the main loop, for the next character.
def consume_lexeme (c : Char) (source : InputSource) : Except Failure (Lexeme × InputSource) :=
  if is_char_literal_start c then do
    let (tokens, source) ← consume_char_literal source
    .ok (.tokens tokens none, source)
  else if is_string_literal_start c then do
    let (tokens, source) ← consume_string_literal source
    .ok (.tokens tokens none, source)
  else if is_identifier_start c then do
    let (ident, tokens, source) ← consume_identifier source
    .ok (.tokens tokens (opened_by ident), source)
  else if is_integer_literal_start c then do
    let (tokens, source) ← consume_number source
    .ok (.tokens tokens none, source)
  else if is_pragma_start_or_pound c then do
    let (was_pragma, tokens, source) ← consume_pragma_or_pound source
    .ok (.tokens tokens (if was_pragma then some .pragma else none), source)
  else if is_line_comment_start c source then
    let (tokens, source) := consume_line_comment source
    .ok (.tokens tokens none, source)
  else if is_block_comment_start c source then do
    let (tokens, source) ← consume_block_comment source
    .ok (.tokens tokens none, source)
  else if is_whitespace c then
    let (contained_newline, source) := consume_whitespace source
    .ok (.whitespace contained_newline, source)
  else do
    let token_pos := source.pos
    let (was_punctuation, source) ← maybe_parse_punctuation c source
    match was_punctuation with
    | some token => .ok (.punctuation ⟨token, token_pos⟩, source)
    | none => .error (.parseError "unexpected character")

end PassTokenizer

end Reowolf.Parser
