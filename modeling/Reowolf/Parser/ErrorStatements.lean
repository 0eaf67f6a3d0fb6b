import Reowolf.Library.LossyDecoding
import Reowolf.Library.Machine
import Reowolf.Parser.SourcePositions

namespace Reowolf.Parser

open LossyDecoding (from_utf8_lossy byte_length)

-- What stops the program while an error is reported.
inductive ReportPanic
  | index
  | slice
  | underflow
  | assertion
  | unwrap
deriving DecidableEq

def debug_assert (p : Prop) [Decidable p] : Except ReportPanic Unit :=
  if p then .ok () else .error .assertion

def checked_sub (a b : Nat) : Except ReportPanic Nat :=
  if b ≤ a then .ok (a - b) else .error .underflow

namespace InputSource

def line_starts : Nat → List Char → List Nat
  | _, [] => []
  | char_idx, c :: input =>
    if c = '\n' then (char_idx + 1) :: line_starts (char_idx + 1) input
    else line_starts (char_idx + 1) input

-- The offset at which a line starts, by its number. Lines are counted from 1, and the last entry makes
-- the end of the last line look like that of the other ones.
def get_lookup (input : List Char) : List Nat :=
  [0, 0] ++ line_starts 0 input ++ [input.length + 1]

def lookup (input : List Char) (line_number : Nat) : Except ReportPanic Nat :=
  ((get_lookup input)[line_number]?).elim (.error .index) .ok

def lookup_line_start_offset (input : List Char) (line_number : Nat) : Except ReportPanic Nat :=
  lookup input line_number

def lookup_line_end_offset (input : List Char) (line_number : Nat) : Except ReportPanic Nat := do
  let offset ← checked_sub (← lookup input (line_number + 1)) 1
  if offset > 0 ∧ input[offset]? = some '\n' ∧ input[offset - 1]? = some '\r' then .ok (offset - 1)
  else .ok offset

end InputSource

inductive StatementKind
  | Info
  | Error

inductive ContextKind
  | SingleLine
  | MultiLine
deriving DecidableEq

structure ErrorStatement where
  statement_kind : StatementKind
  context_kind   : ContextKind
  start_line     : Nat
  start_column   : Nat
  end_line       : Nat
  end_column     : Nat
  filename       : String
  context        : List Char
  message        : String

namespace ErrorStatement

open InputSource

def create_context (input : List Char) (start «end» : Nat) : Except ReportPanic (List Char) :=
  if start ≤ «end» ∧ «end» ≤ input.length then
    .ok (from_utf8_lossy ((input.drop start).take («end» - start)))
  else .error .slice

variable (statement_kind : StatementKind) (filename : String) (input : List Char)

def from_source_at_pos (position : InputPosition) (message : String) :
    Except ReportPanic ErrorStatement := do
  let line_start ← lookup_line_start_offset input position.line
  let line_end ← lookup_line_end_offset input position.line
  let context ← create_context input line_start line_end
  debug_assert (position.offset ≥ line_start)
  let column ← (· + 1) <$> checked_sub position.offset line_start
  .ok
    { statement_kind := statement_kind
      context_kind   := .SingleLine
      start_line     := position.line
      start_column   := column
      end_line       := position.line
      end_column     := column + 1
      filename       := filename
      context        := context
      message        := message }

def from_source_at_span («begin» «end» : InputPosition) (message : String) :
    Except ReportPanic ErrorStatement := do
  debug_assert (end.line ≥ begin.line)
  debug_assert (end.offset ≥ begin.offset)
  let first_line_start ← lookup_line_start_offset input begin.line
  let last_line_start ← lookup_line_start_offset input end.line
  let last_line_end ← lookup_line_end_offset input end.line
  let context ← create_context input first_line_start last_line_end
  debug_assert (begin.offset ≥ first_line_start)
  let start_column ← (· + 1) <$> checked_sub begin.offset first_line_start
  let end_column ← (· + 1) <$> checked_sub end.offset last_line_start
  .ok
    { statement_kind := statement_kind
      context_kind   := if begin.line = end.line then .SingleLine else .MultiLine
      start_line     := begin.line
      start_column   := start_column
      end_line       := end.line
      end_column     := end_column
      filename       := filename
      context        := context
      message        := message }

-- A tab takes four places.
def transform_context (source : List Char) : List Char :=
  source.flatMap fun c => if c = '\t' then [' ', ' ', ' ', ' '] else [c]

def extend_annotation (first_col last_col : Nat) (source : List Char) (extend_char : Char) :
    Except ReportPanic (List Char) := do
  debug_assert (first_col > 0 ∧ last_col > first_col)
  let first_idx := first_col - 1
  let last_idx := last_col - 1
  if first_idx ≥ byte_length source then
    debug_assert (first_idx = byte_length source)
    debug_assert (first_idx + 1 = last_idx)
    .ok [extend_char]
  else
    .ok (((source.take last_idx).drop first_idx).flatMap fun c =>
      List.replicate (if c = '\t' then 4 else 1) extend_char)

-- The lines of a text, each with its line end.
def split_inclusive : List Char → List (List Char)
  | [] => []
  | c :: source =>
    if c = '\n' then [c] :: split_inclusive source
    else match split_inclusive source with
      | []            => [[c]]
      | line :: lines => (c :: line) :: lines

def strip_line_end (line : List Char) : List Char :=
  if line.getLast? = some '\n' then
    if line.dropLast.getLast? = some '\r' then line.dropLast.dropLast else line.dropLast
  else line

def lines (source : List Char) : List (List Char) := (split_inclusive source).map strip_line_end

def decimal (n : Nat) : List Char := (toString n).toList

def header (statement : ErrorStatement) : List Char :=
  (match statement.statement_kind with | .Info => " INFO: ".toList | .Error => "ERROR: ".toList) ++
  statement.message.toList ++ ['\n'] ++ " +- ".toList ++
  (if statement.filename.isEmpty then [] else "in ".toList ++ statement.filename.toList ++ [' ']) ++
  (match statement.context_kind with
    | .SingleLine => " at ".toList ++ decimal statement.start_line ++ ':' :: decimal statement.start_column
    | .MultiLine =>
      " from ".toList ++ decimal statement.start_line ++ ':' :: decimal statement.start_column ++
      " to ".toList ++ decimal statement.end_line ++ ':' :: decimal statement.end_column) ++
  ['\n'] ++ " | \n".toList

def fmt (statement : ErrorStatement) : Except ReportPanic (List Char) :=
  match statement.context_kind with
  | .SingleLine => do
    let context := " |  ".toList ++ transform_context statement.context ++ ['\n']
    let indent ← extend_annotation 1 (statement.start_column + 1) statement.context ' '
    let marks ← extend_annotation statement.start_column statement.end_column statement.context '~'
    .ok (statement.header ++ context ++ (" | ".toList ++ indent ++ marks ++ ['\n']))
  | .MultiLine =>
    match lines statement.context with
    | [] => .error .unwrap
    | first_line :: remaining_lines => do
      let first := " |- ".toList ++ transform_context first_line ++ ['\n']
      let remaining := remaining_lines.flatMap fun cur_line =>
        " |  ".toList ++ transform_context cur_line ++ ['\n']
      let last_line := remaining_lines.getLastD first_line
      let underline ← extend_annotation 1 statement.end_column last_line '_'
      .ok (statement.header ++ first ++ remaining ++ (" \\__".toList ++ underline ++ "/\n".toList))

end ErrorStatement

end Reowolf.Parser
