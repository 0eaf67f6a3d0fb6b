import Reowolf.Protocol.Ast
import Reowolf.Library.Machine

namespace Reowolf.Parser

inductive TokenKind
  -- Tokens with a variable number of characters
  | ident
  | pragma
  | integer
  | string
  | character
  | lineComment
  | blockComment
  -- Punctuation (single character)
  | exclamation
  | question
  | pound
  | openAngle
  | openCurly
  | openParen
  | openSquare
  | closeAngle
  | closeCurly
  | closeParen
  | closeSquare
  | colon
  | comma
  | dot
  | semiColon
  -- Operator-like (single character)
  | «at»
  | plus
  | minus
  | star
  | slash
  | percent
  | caret
  | and
  | or
  | tilde
  | equal
  -- Punctuation (two characters)
  | colonColon
  | dotDot
  | arrowRight
  -- Operator-like (two characters)
  | atEquals
  | plusPlus
  | plusEquals
  | minusMinus
  | minusEquals
  | starEquals
  | slashEquals
  | percentEquals
  | caretEquals
  | andAnd
  | andEquals
  | orOr
  | orEquals
  | equalEqual
  | notEqual
  | shiftLeft
  | lessEquals
  | shiftRight
  | greaterEquals
  -- Operator-like (three characters)
  | shiftLeftEquals
  | shiftRightEquals
  -- The end of a token with a variable number of characters
  | spanEnd
deriving DecidableEq

namespace TokenKind

def has_span_end : TokenKind → Bool
  | ident | pragma | integer | string | character | lineComment | blockComment => true
  | _ => false

def is_comment : TokenKind → Bool
  | lineComment | blockComment => true
  | _ => false

-- The characters of a token with a fixed number of characters.
def token_chars : TokenKind → String
  | exclamation      => "!"
  | question         => "?"
  | pound            => "#"
  | openAngle        => "<"
  | openCurly        => "\x7b"
  | openParen        => "("
  | openSquare       => "["
  | closeAngle       => ">"
  | closeCurly       => "\x7d"
  | closeParen       => ")"
  | closeSquare      => "]"
  | colon            => ":"
  | comma            => ","
  | dot              => "."
  | semiColon        => ";"
  | «at»             => "@"
  | plus             => "+"
  | minus            => "-"
  | star             => "*"
  | slash            => "/"
  | percent          => "%"
  | caret            => "^"
  | and              => "&"
  | or               => "|"
  | tilde            => "~"
  | equal            => "="
  | colonColon       => "::"
  | dotDot           => ".."
  | arrowRight       => "->"
  | atEquals         => "@="
  | plusPlus         => "++"
  | plusEquals       => "+="
  | minusMinus       => "--"
  | minusEquals      => "-="
  | starEquals       => "*="
  | slashEquals      => "/="
  | percentEquals    => "%="
  | caretEquals      => "^="
  | andAnd           => "&&"
  | andEquals        => "&="
  | orOr             => "||"
  | orEquals         => "|="
  | equalEqual       => "=="
  | notEqual         => "!="
  | shiftLeft        => "<<"
  | lessEquals       => "<="
  | shiftRight       => ">>"
  | greaterEquals    => ">="
  | shiftLeftEquals  => "<<="
  | shiftRightEquals => ">>="
  | ident | pragma | integer | string | character | lineComment | blockComment | spanEnd => ""

end TokenKind

-- Why a pass of the parser stops: with an error for the programmer, or at a place that the source
-- holds to be unreachable. The loops of this model have a bound that the source's do not have. What
-- reaches the bound stops in a way of its own.
inductive Failure
  | parseError (message : String)
  | panic
  | fuel
deriving DecidableEq

-- A token as the passes behind the tokenizer read it: its kind, the section of the source that it
-- stands for if the number of its characters varies, and the section between it and the token before.
structure Token where
  kind : TokenKind
  text : String
  gap  : String
deriving DecidableEq

namespace Token

def of (kind : TokenKind) : Token := ⟨kind, "", ""⟩

def ident (text : String) : Token := ⟨.ident, text, ""⟩

@[simp] theorem kind_of (kind : TokenKind) : (of kind).kind = kind := rfl

@[simp] theorem kind_ident (text : String) : (ident text).kind = .ident := rfl

@[simp] theorem text_ident (text : String) : (ident text).text = text := rfl

end Token

-- What is left of the tokens of a range. The iterator of the source skips comments whenever it looks
-- at a token, so they are left out here.
abbrev TokenIter := List Token

namespace TokenIter

def next (iter : TokenIter) : Option TokenKind := iter.head?.map Token.kind

def consume (iter : TokenIter) : TokenIter := iter.tail

@[simp] theorem next_nil : next [] = none := rfl

@[simp] theorem next_cons (token : Token) (iter : TokenIter) :
    next (token :: iter) = some token.kind := rfl

@[simp] theorem consume_cons (token : Token) (iter : TokenIter) : consume (token :: iter) = iter :=
  rfl

theorem next_eq_some {iter : TokenIter} {kind} (h : iter.next = some kind) :
    ∃ token rest, iter = token :: rest ∧ token.kind = kind := by
  match iter, h with
  | token :: rest, h => exact ⟨token, rest, rfl, Option.some.inj h⟩

theorem next_append {pre : TokenIter} (h : pre ≠ []) (iter : TokenIter) :
    next (pre ++ iter) = pre.next := by
  match pre, h with
  | _ :: _, _ => rfl

end TokenIter

def is_reserved_definition_keyword (text : Identifier) : Bool :=
  text ∈ ["struct", "enum", "union", "func", "primitive", "composite"]

def is_reserved_statement_keyword (text : Identifier) : Bool :=
  text ∈ ["import", "as", "channel", "if", "while", "break", "continue", "goto", "return",
    "synchronous", "new"]

def is_reserved_expression_keyword (text : Identifier) : Bool :=
  text ∈ ["let", "cast", "true", "false", "null", "get", "put", "fires", "create", "assert",
    "length"]

def is_reserved_type_keyword (text : Identifier) : Bool :=
  text ∈ ["in", "out", "msg", "bool", "u8", "u16", "u32", "u64", "s8", "s16", "s32", "s64", "char",
    "string", "auto"]

def is_reserved_keyword (text : Identifier) : Bool :=
  is_reserved_definition_keyword text || is_reserved_statement_keyword text ||
    is_reserved_expression_keyword text || is_reserved_type_keyword text

def consume_token (iter : TokenIter) (expected : TokenKind) : Except Failure TokenIter :=
  if iter.next = some expected then
    .ok iter.consume
  else
    .error (.parseError ("expected '" ++ expected.token_chars ++ "'"))

-- The section of the next token, which is an identifier.
def peek_ident : TokenIter → Option Identifier
  | [] => none
  | token :: _ => if token.kind = .ident then some token.text else none

def has_ident (iter : TokenIter) (expected : Identifier) : Bool := peek_ident iter = some expected

-- Consumes any identifier, also one that is a reserved keyword.
def consume_any_ident (iter : TokenIter) : Except Failure (Identifier × TokenIter) :=
  match peek_ident iter with
  | some text => .ok (text, iter.consume)
  | none => .error (.parseError "expected an identifier")

def consume_ident (iter : TokenIter) : Except Failure (Identifier × TokenIter) := do
  let (ident, iter) ← consume_any_ident iter
  if is_reserved_keyword ident then
    .error (.parseError "encountered reserved keyword")
  else
    .ok (ident, iter)

-- A comma-separated list up to a closing delimiter, in at most `fuel` rounds.
def consume_comma_separated_until {α : Type} (close_delim : TokenKind) (article : String)
    (consumer_fn : TokenIter → Except Failure (α × TokenIter)) :
    (fuel : Nat) → (had_comma : Bool) → TokenIter → List α → Except Failure (List α × TokenIter)
  | 0, _, _, _ => .error .fuel
  | fuel + 1, had_comma, iter, target =>
    if iter.next = some close_delim then
      .ok (target, iter.consume)
    else if !had_comma || iter.next.isNone then
      .error (.parseError ("expected a '" ++ close_delim.token_chars ++ "', or " ++ article))
    else do
      let (new_item, iter) ← consumer_fn iter
      if iter.next = some .comma then
        consume_comma_separated_until close_delim article consumer_fn fuel true iter.consume
          (target ++ [new_item])
      else
        consume_comma_separated_until close_delim article consumer_fn fuel false iter
          (target ++ [new_item])

-- Both delimiters have to be there. A round consumes a token or is the last one.
def consume_comma_separated {α : Type} (open_delim close_delim : TokenKind)
    (consumer_fn : TokenIter → Except Failure (α × TokenIter)) (item_name list_name : String)
    (iter : TokenIter) : Except Failure (List α × TokenIter) :=
  if iter.next = some open_delim then
    consume_comma_separated_until close_delim item_name consumer_fn (iter.length + 1) true
      iter.consume []
  else
    .error (.parseError ("expected " ++ list_name))

theorem consume_token_cons {token : Token} {kind : TokenKind} (h : token.kind = kind)
    (iter : TokenIter) : consume_token (token :: iter) kind = .ok iter := by
  simp [consume_token, h]

@[simp] theorem consume_token_of (kind : TokenKind) (iter : TokenIter) :
    consume_token (.of kind :: iter) kind = .ok iter :=
  consume_token_cons rfl iter

@[simp] theorem peek_ident_ident (text : Identifier) (iter : TokenIter) :
    peek_ident (.ident text :: iter) = some text :=
  rfl

@[simp] theorem consume_any_ident_ident (text : Identifier) (iter : TokenIter) :
    consume_any_ident (.ident text :: iter) = .ok (text, iter) :=
  rfl

theorem consume_ident_ident {text : Identifier} (h : is_reserved_keyword text = false)
    (iter : TokenIter) : consume_ident (.ident text :: iter) = .ok (text, iter) := by
  simp [consume_ident, bind, Except.bind, h]

end Reowolf.Parser
