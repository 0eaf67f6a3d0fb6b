import Reowolf.Parser.Lexemes

namespace Reowolf.Parser

-- An index of a range is missing where the source has `NO_RELATION` or `NO_SIBLING`.
structure TokenRange where
  parent_idx       : Option Nat
  range_kind       : TokenRangeKind
  curly_depth      : Nat
  start            : Nat
  «end»            : Nat
  num_child_ranges : Nat
  first_child_idx  : Option Nat
  last_child_idx   : Option Nat
  next_sibling_idx : Option Nat
deriving DecidableEq

structure TokenBuffer where
  tokens : List BufferToken
  ranges : List TokenRange
deriving DecidableEq

-- An index that is out of bounds is where the source panics.
def get_range (ranges : List TokenRange) (idx : Nat) : Except Failure TokenRange :=
  match ranges[idx]? with
  | some range => .ok range
  | none => .error .panic

structure PassTokenizer where
  curly_stack : List InputPosition
  stack_idx   : Nat
deriving DecidableEq

namespace PassTokenizer

-- The children of a new range are none.
def childless (parent_idx : Option Nat) (range_kind : TokenRangeKind) (curly_depth start «end» : Nat)
    (next_sibling_idx : Option Nat) : TokenRange :=
  ⟨parent_idx, range_kind, curly_depth, start, «end», 0, none, none, next_sibling_idx⟩

def fix_up_sibling (ranges : List TokenRange) (sibling_idx : Option Nat) (next_idx : Nat) :
    Except Failure (List TokenRange) :=
  match sibling_idx with
  | none => .ok ranges
  | some sibling_idx => do
    let sibling ← get_range ranges sibling_idx
    .ok (ranges.set sibling_idx { sibling with next_sibling_idx := some next_idx })

def add_code_range (curly_depth : Nat) (ranges : List TokenRange) (parent_idx : Nat)
    (code_start_idx code_end_idx : Nat) (next_sibling_idx : Option Nat) :
    Except Failure (List TokenRange) := do
  let new_range_idx := ranges.length
  let parent_range ← get_range ranges parent_idx
  let ranges := ranges.set parent_idx { parent_range with
    last_child_idx := some new_range_idx
    «end» := code_end_idx
    num_child_ranges := parent_range.num_child_ranges + 1 }
  let ranges := ranges ++
    [childless (some parent_idx) .code curly_depth code_start_idx code_end_idx next_sibling_idx]
  fix_up_sibling ranges parent_range.last_child_idx new_range_idx

def push_range (pass : PassTokenizer) (ranges : List TokenRange) (range_kind : TokenRangeKind)
    (first_token_idx : Nat) : Except Failure (PassTokenizer × List TokenRange) := do
  let new_range_idx := ranges.length
  let curly_depth := pass.curly_stack.length
  let parent_range ← get_range ranges pass.stack_idx
  let ranges := ranges.set pass.stack_idx { parent_range with
    first_child_idx := parent_range.first_child_idx.or (some new_range_idx) }
  let ranges ←
    if parent_range.end ≠ first_token_idx then
      add_code_range curly_depth ranges pass.stack_idx parent_range.end first_token_idx
        (some (new_range_idx + 1))
    else
      .ok ranges
  .ok ({ pass with stack_idx := ranges.length }, ranges ++
    [childless (some pass.stack_idx) range_kind curly_depth first_token_idx first_token_idx none])

def pop_range (pass : PassTokenizer) (ranges : List TokenRange) (end_token_idx : Nat) :
    Except Failure (PassTokenizer × List TokenRange) := do
  let popped_idx := pass.stack_idx
  let popped_range ← get_range ranges popped_idx
  let ranges := ranges.set popped_idx { popped_range with «end» := end_token_idx }
  match popped_range.parent_idx with
  | none => .error .panic
  | some parent_idx => do
    let parent ← get_range ranges parent_idx
    let ranges := ranges.set parent_idx { parent with
      first_child_idx := parent.first_child_idx.or (some popped_idx)
      last_child_idx := some popped_idx
      «end» := end_token_idx
      num_child_ranges := parent.num_child_ranges + 1 }
    let ranges ← fix_up_sibling ranges parent.last_child_idx popped_idx
    .ok ({ pass with stack_idx := parent_idx }, ranges)

-- Ends the innermost range if it satisfies a test.
def pop_range_if (p : TokenRange → Bool) (pass : PassTokenizer) (ranges : List TokenRange)
    (end_token_idx : Nat) : Except Failure (PassTokenizer × List TokenRange) := do
  let range ← get_range ranges pass.stack_idx
  if p range then
    pass.pop_range ranges end_token_idx
  else
    .ok (pass, ranges)

-- What a lexeme does to the buffer.
def visit_lexeme (pass : PassTokenizer) (target : TokenBuffer) :
    Lexeme → Except Failure (PassTokenizer × TokenBuffer)
  | .tokens tokens opens => do
    let token_index := target.tokens.length
    let (pass, ranges) ←
      match opens with
      | some range_kind => pass.push_range target.ranges range_kind token_index
      | none => .ok (pass, target.ranges)
    .ok (pass, ⟨target.tokens ++ tokens, ranges⟩)
  | .whitespace contained_newline => do
    let (pass, ranges) ←
      if contained_newline then
        pass.pop_range_if (·.range_kind = .pragma) target.ranges target.tokens.length
      else
        .ok (pass, target.ranges)
    .ok (pass, ⟨target.tokens, ranges⟩)
  | .punctuation token => do
    let tokens := target.tokens ++ [token]
    match token.kind with
    | .openCurly =>
      .ok ({ pass with curly_stack := token.pos :: pass.curly_stack }, ⟨tokens, target.ranges⟩)
    | .closeCurly =>
      match pass.curly_stack with
      | [] => .error (.parseError "unmatched closing curly brace '\x7d'")
      | _ :: curly_stack => do
        let (pass, ranges) ← pop_range_if
          (fun range => range.range_kind = .definition && range.curly_depth = curly_stack.length)
          { pass with curly_stack := curly_stack } target.ranges tokens.length
        .ok (pass, ⟨tokens, ranges⟩)
    | .semiColon => do
      let (pass, ranges) ← pass.pop_range_if (·.range_kind = .import) target.ranges tokens.length
      .ok (pass, ⟨tokens, ranges⟩)
    | _ => .ok (pass, ⟨tokens, target.ranges⟩)

-- The main loop, in at most `fuel` rounds.
def tokenize_rounds : (fuel : Nat) → PassTokenizer → TokenBuffer → InputSource →
    Except Failure (PassTokenizer × TokenBuffer × InputSource)
  | 0, _, _, _ => .error .fuel
  | fuel + 1, pass, target, source =>
    match source.next with
    | none => .ok (pass, target, source)
    | some c => do
      let (lexeme, source) ← consume_lexeme c source
      let (pass, target) ← pass.visit_lexeme target lexeme
      tokenize_rounds fuel pass target source

-- Closes all ranges that are still open, of which there are at most `fuel`.
def pop_ranges : (fuel : Nat) → PassTokenizer → List TokenRange → (end_token_idx : Nat) →
    Except Failure (List TokenRange)
  | 0, _, _, _ => .error .fuel
  | fuel + 1, pass, ranges, end_token_idx =>
    if pass.stack_idx ≠ 0 then do
      let (pass, ranges) ← pass.pop_range ranges end_token_idx
      pop_ranges fuel pass ranges end_token_idx
    else
      .ok ranges

-- What is left to do at the end of the file.
def finish (pass : PassTokenizer) (target : TokenBuffer) (source : InputSource) :
    Except Failure TokenBuffer :=
  match source.had_error with
  | some message => .error (.parseError message)
  | none =>
    if !pass.curly_stack.isEmpty then
      .error (.parseError "unmatched opening curly brace '\x7b'")
    else do
      let last_token_idx := target.tokens.length
      let ranges ← pop_ranges (target.ranges.length + 1) pass target.ranges last_token_idx
      let module_range ← get_range ranges 0
      let last_registered_idx := module_range.end
      if last_registered_idx ≠ last_token_idx then do
        .ok ⟨target.tokens,
          ← add_code_range pass.curly_stack.length ranges 0 last_registered_idx last_token_idx none⟩
      else
        .ok ⟨target.tokens, ranges⟩

def module_range : TokenRange := childless none .module 0 0 0 none

-- A round consumes a character or is the last one.
def tokenize (input : List Char) : Except Failure TokenBuffer := do
  let (pass, target, source) ←
    tokenize_rounds (input.length + 1) ⟨[], 0⟩ ⟨[], [module_range]⟩ (.new input)
  pass.finish target source

end PassTokenizer

-- The loop over the children of the module range that the passes behind the tokenizer have in common,
-- as the indices of the ranges that it visits. It stops at the last sibling, but not in front of the
-- first one.
def visited_ranges (ranges : List TokenRange) : (fuel : Nat) → (range_idx : Option Nat) →
    Except Failure (List Nat)
  | 0, _ => .error .fuel
  | _ + 1, none => .error .panic
  | fuel + 1, some range_idx => do
    let cur_range ← get_range ranges range_idx
    match cur_range.next_sibling_idx with
    | none => .ok [range_idx]
    | some next_idx => do .ok (range_idx :: (← visited_ranges ranges fuel (some next_idx)))

def visited_children (buffer : TokenBuffer) : Except Failure (List Nat) := do
  let module_range ← get_range buffer.ranges 0
  visited_ranges buffer.ranges (buffer.ranges.length + 1) module_range.first_child_idx

end Reowolf.Parser
