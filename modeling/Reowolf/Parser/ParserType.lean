import Reowolf.Parser.SymbolTable

namespace Reowolf.Parser

inductive ParserTypeVariant
  -- Special builtin, only usable by the compiler
  | void
  | inputOrOutput
  | arrayLike
  | integerLike
  -- Basic builtin
  | message
  | bool
  | uint8
  | uint16
  | uint32
  | uint64
  | sint8
  | sint16
  | sint32
  | sint64
  | character
  | string
  | integerLiteral
  | inferred
  -- Builtins expecting one subsequent type
  | array
  | input
  | output
  -- User-defined types
  | polymorphicArgument (definition_id : DefinitionId) (idx : Nat)
  | definition (definition_id : DefinitionId) (num : Nat)
deriving DecidableEq

def ParserTypeVariant.num_embedded : ParserTypeVariant → Nat
  | arrayLike | inputOrOutput | array | input | output => 1
  | definition _ num => num
  | _ => 0

-- The span of an element is kept as the section of the source that an error quotes.
structure ParserTypeElement where
  variant : ParserTypeVariant
  section_at_span : String
deriving DecidableEq

-- What parsing a type reads of the rest of the compiler and of where the type stands.
structure TypeCtx where
  symbols             : SymbolTable
  num_poly_vars       : DefinitionId → Nat
  poly_vars           : List Identifier
  cur_scope           : SymbolScope
  wrapping_definition : DefinitionId
  allow_inference     : Bool

def builtin_types : List (Identifier × ParserTypeVariant) := [
  ("msg", .message), ("bool", .bool), ("u8", .uint8), ("u16", .uint16), ("u32", .uint32),
  ("u64", .uint64), ("s8", .sint8), ("s16", .sint16), ("s32", .sint32), ("s64", .sint64),
  ("in", .input), ("out", .output), ("char", .character), ("string", .string), ("auto", .inferred)]

-- The last polymorphic variable with a name.
def seek_poly_var (poly_vars : List Identifier) (name : Identifier) : Option Nat :=
  (List.range poly_vars.length).findRev? fun idx => poly_vars[idx]? = some name

-- From a symbol to the definition that it stands for, through the modules in between.
def consume_symbol_path (ctx : TypeCtx) :
    (fuel : Nat) → Symbol → (type_text type_section : String) → TokenIter →
      Except Failure (ParserTypeElement × TokenIter)
  | 0, _, _, _, _ => .error .fuel
  | fuel + 1, last_symbol, type_text, type_section, iter =>
    match last_symbol.variant with
    | .definition symbol =>
      .ok (⟨.definition symbol.definition_id (ctx.num_poly_vars symbol.definition_id), type_section⟩,
        iter)
    | .module root_id _ =>
      if iter.next = some .colonColon then do
        let gap := (iter.head?.map Token.gap).getD ""
        let iter ← consume_token iter .colonColon
        let next_gap := (iter.head?.map Token.gap).getD ""
        let (next_text, iter) ← consume_any_ident iter
        let scope := .module root_id
        match ctx.symbols.get_symbol_by_name_defined_in_scope scope next_text with
        | some new_symbol =>
          consume_symbol_path ctx fuel new_symbol next_text
            (type_section ++ gap ++ "::" ++ next_gap ++ next_text) iter
        | none =>
          let suffix :=
            if (ctx.symbols.get_symbol_by_name scope next_text).isSome then
              ". The module '" ++ type_text ++ "' does import '" ++ next_text ++
                "', but these imports are not visible to other modules"
            else
              ""
          .error (.parseError
            ("unknown type '" ++ next_text ++ "' in module '" ++ type_text ++ "'" ++ suffix))
      else
        .error (.parseError "expected a type but got a module")

-- An identifier that resolves to some kind of type. Polymorphic arguments are left for the caller.
def consume_parser_type_ident (ctx : TypeCtx) (iter : TokenIter) :
    Except Failure (ParserTypeElement × TokenIter) := do
  let (type_text, iter) ← consume_any_ident iter
  match builtin_types.lookup type_text with
  | some variant =>
    if variant = .inferred ∧ !ctx.allow_inference then
      .error (.parseError "type inference is not allowed here")
    else
      .ok (⟨variant, type_text⟩, iter)
  | none =>
    match seek_poly_var ctx.poly_vars type_text with
    | some poly_idx =>
      .ok (⟨.polymorphicArgument ctx.wrapping_definition poly_idx, type_text⟩, iter)
    | none =>
      match ctx.symbols.get_symbol_by_name ctx.cur_scope type_text with
      | none => .error (.parseError "unknown type")
      | some last_symbol =>
        consume_symbol_path ctx (iter.length + 1) last_symbol type_text type_text iter

-- An element with the depth of angle braces at which it is found.
structure Entry where
  element : ParserTypeElement
  depth   : Int
deriving DecidableEq

namespace Entry

def num_embedded (entry : Entry) : Nat := entry.element.variant.num_embedded

def deepen (entry : Entry) : Entry := { entry with depth := entry.depth + 1 }

end Entry

-- Increments the depth of the children of an element that has been at the given depth.
def deepen_children (depth : Int) : List Entry → List Entry
  | [] => []
  | entry :: entries =>
    if depth + 1 ≤ entry.depth then
      entry.deepen :: deepen_children depth entries
    else
      entry :: entries

def rposition (elements : List Entry) (depth : Int) : Option Nat :=
  (elements.reverse.findIdx? (·.depth = depth)).map (elements.length - 1 - ·)

-- An array type goes in front of the most recently parsed type at a depth, which becomes its child.
def insert_array_before (elements : List Entry) (depth : Int) (section_at_span : String) :
    Except Failure (List Entry) :=
  match rposition elements depth with
  | none => .error .panic
  | some index =>
    match elements.drop index with
    | [] => .error .panic
    | entry :: children =>
      .ok (elements.take index ++ ⟨⟨.array, section_at_span⟩, depth⟩ :: entry.deepen ::
        if entry.num_embedded ≠ 0 then deepen_children depth children else children)

inductive TypeState
  | ident
  | «open»
  | close
  | comma
deriving DecidableEq

-- The local variables of the loop over polymorphic arguments.
structure TypeLoop where
  state       : TypeState
  angle_depth : Int
  elements    : List Entry
  iter        : TokenIter

namespace TypeLoop

-- The tokens of an array, of which the opening one is the next.
def consume_array (loop : TypeLoop) : Except Failure TypeLoop :=
  let iter := loop.iter.consume
  if iter.next = some .closeSquare then do
    let gap := (iter.head?.map Token.gap).getD ""
    let elements ← insert_array_before loop.elements loop.angle_depth ("[" ++ gap ++ "]")
    .ok { loop with elements := elements, iter := iter.consume }
  else
    .error (.parseError "unexpected token: expected ']'")

def consume_element (ctx : TypeCtx) (loop : TypeLoop) : Except Failure TypeLoop := do
  let (element, iter) ← consume_parser_type_ident ctx loop.iter
  .ok ⟨.ident, loop.angle_depth, loop.elements ++ [⟨element, loop.angle_depth⟩], iter⟩

-- Goes to a state, and closes a number of angle braces.
def goto (loop : TypeLoop) (state : TypeState) (closed : Int) : TypeLoop :=
  { loop with state := state, angle_depth := loop.angle_depth - closed, iter := loop.iter.consume }

-- One round of the loop, up to the look at the depth of angle braces.
def round (ctx : TypeCtx) (loop : TypeLoop) : Except Failure TypeLoop :=
  match loop.state with
  | .ident =>
    match loop.iter.next with
    | some .openAngle  => .ok (loop.goto .open (-1))
    | some .closeAngle => .ok (loop.goto .close 1)
    | some .shiftRight => .ok (loop.goto .close 2)
    | some .comma      => .ok (loop.goto .comma 0)
    | some .openSquare => loop.consume_array
    | _ => .error (.parseError "unexpected token: expected '<', '>', ',' or '['")
  | .open => loop.consume_element ctx
  | .close =>
    match loop.iter.next with
    | some .comma      => .ok (loop.goto .comma 0)
    | some .closeAngle => .ok (loop.goto .close 1)
    | some .shiftRight => .ok (loop.goto .close 2)
    | some .openSquare => loop.consume_array
    | _ => .error (.parseError "unexpected token: expected ',', '>', or '['")
  | .comma =>
    match loop.iter.next with
    | some .ident      => loop.consume_element ctx
    | some .closeAngle => .ok (loop.goto .close 1)
    | some .shiftRight => .ok (loop.goto .close 2)
    | _ => .error (.parseError "unexpected token: expected '>' or a type name")

-- The loop, in at most `fuel` rounds.
def run (ctx : TypeCtx) : (fuel : Nat) → TypeLoop → Except Failure TypeLoop
  | 0, _ => .error .fuel
  | fuel + 1, loop => do
    let loop ← loop.round ctx
    if loop.angle_depth < 0 then
      .error (.parseError "unmatched '>'")
    else if loop.angle_depth = 0 then
      .ok loop
    else
      loop.run ctx fuel

end TypeLoop

-- The number of types directly under an element at a depth, of the elements that come after it.
def encountered_subtypes (depth : Int) : List Entry → Nat
  | [] => 0
  | peek :: entries =>
    if peek.depth = depth + 1 then
      encountered_subtypes depth entries + 1
    else if peek.depth ≤ depth then
      0
    else
      encountered_subtypes depth entries

def polymorphic_name_text (num : Nat) : String :=
  if num = 1 then "polymorphic argument" else "polymorphic arguments"

def were_or_was (num : Nat) : String := if num = 1 then "was" else "were"

def mismatch_message (element : ParserTypeElement) (expected encountered : Nat)
    (allow_inference : Bool) : String :=
  if expected = 0 then
    "the type '" ++ element.section_at_span ++ "' is not polymorphic, yet " ++ toString encountered ++
      " " ++ polymorphic_name_text encountered ++ " " ++ were_or_was encountered ++ " provided"
  else
    "expected " ++ toString expected ++ " " ++ polymorphic_name_text expected ++
      (if allow_inference then " (or none, to perform implicit type inference)" else "") ++
      " for the type '" ++ element.section_at_span ++ "', but " ++ toString encountered ++ " " ++
      were_or_was encountered ++ " provided"

-- Makes sure that the types have the right number of embedded types: for a number of elements, of
-- which the first one comes after those that are in order already. Missing types are inferred.
def check_subtypes (allow_inference : Bool) :
    (num : Nat) → (checked elements : List Entry) → Except Failure (List Entry)
  | 0, checked, elements => .ok (checked ++ elements)
  | _ + 1, checked, [] => .ok checked
  | num + 1, checked, cur :: elements =>
    let expected := cur.num_embedded
    let encountered := encountered_subtypes cur.depth elements
    if expected = encountered then
      check_subtypes allow_inference num (checked ++ [cur]) elements
    else if encountered ≠ 0 then
      .error (.parseError (mismatch_message cur.element expected encountered allow_inference))
    else if allow_inference then
      let inferred := ⟨⟨.inferred, cur.element.section_at_span⟩, cur.depth + 1⟩
      check_subtypes allow_inference num (checked ++ [cur])
        (List.replicate expected inferred ++ elements)
    else
      .error (.parseError "type inference is not allowed here")

-- Pairs of square brackets, in at most `fuel` rounds.
def consume_arrays : (fuel : Nat) → List ParserTypeElement → TokenIter →
    Except Failure (List ParserTypeElement × TokenIter)
  | 0, _, _ => .error .fuel
  | fuel + 1, elements, iter =>
    if iter.next = some .openSquare then do
      let iter := iter.consume
      let gap := (iter.head?.map Token.gap).getD ""
      let iter ← consume_token iter .closeSquare
      consume_arrays fuel (elements ++ [⟨.array, "[" ++ gap ++ "]"⟩]) iter
    else
      .ok (elements, iter)

def consume_close_angles : (num : Nat) → TokenIter → Except Failure TokenIter
  | 0, iter => .ok iter
  | num + 1, iter => do consume_close_angles num (← consume_token iter .closeAngle)

-- A type, as its elements from the root of the type tree on. The caller may have consumed a number of
-- opening angle braces, whose closing ones are then consumed as well.
def consume_parser_type (ctx : TypeCtx) (first_angle_depth : Nat) (iter : TokenIter) :
    Except Failure (List ParserTypeElement × TokenIter) := do
  let (element, iter) ← consume_parser_type_ident ctx iter
  if iter.next = some .openAngle then
    let loop ← TypeLoop.run ctx (iter.length + 1)
      ⟨.open, first_angle_depth + 1, [⟨element, 0⟩], iter.consume⟩
    let elements ← check_subtypes ctx.allow_inference loop.elements.length [] loop.elements
    .ok (elements.map Entry.element, loop.iter)
  else
    let (arrays, iter) ← consume_arrays (iter.length + 1) [] iter
    let num_embedded := element.variant.num_embedded
    if num_embedded ≠ 0 ∧ !ctx.allow_inference then
      .error (.parseError "type inference is not allowed here")
    else
      let iter ← consume_close_angles first_angle_depth iter
      .ok (arrays ++ element :: List.replicate num_embedded ⟨.inferred, element.section_at_span⟩, iter)

end Reowolf.Parser
