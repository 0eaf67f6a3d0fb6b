import Reowolf.Parser.Expressions
import Reowolf.Parser.Lexemes
import Reowolf.Parser.SymbolTable

namespace Reowolf.Parser

abbrev PragmaId := Nat

inductive Pragma
  | version (version : BitVec 64)
  | module (value : Identifier)
deriving DecidableEq

structure AliasedSymbol where
  name          : Identifier
  «alias»       : Option Identifier
  definition_id : DefinitionId
deriving DecidableEq

inductive Import
  | module (module «alias» : Identifier) (module_id : RootId)
  | symbols (module : Identifier) (module_id : RootId) (symbols : List AliasedSymbol)
deriving DecidableEq

-- A component is primitive or composite.
inductive DefinitionVariant
  | struct
  | enum
  | union
  | function
  | primitive
  | composite
deriving DecidableEq

def DefinitionVariant.class : DefinitionVariant → DefinitionClass
  | .struct => .struct
  | .enum => .enum
  | .union => .union
  | .function => .function
  | .primitive | .composite => .component

-- A definition as it is reserved for the passes to come. A builtin one is not defined in a module.
structure ReservedDefinition where
  defined_in : Option RootId
  variant    : DefinitionVariant
  identifier : Identifier
  poly_vars  : List Identifier
deriving DecidableEq

structure Root where
  pragmas     : List PragmaId
  imports     : List ImportId
  definitions : List DefinitionId
deriving DecidableEq

-- What the scanning of symbols and the resolving of imports put into the heap. An id is an index.
structure ModuleHeap where
  protocol_descriptions : List Root
  pragmas               : List Pragma
  imports               : List Import
  definitions           : List ReservedDefinition

structure PassCtx where
  heap    : ModuleHeap
  symbols : SymbolTable

-- A token range below that of a module, with the tokens in it.
structure ModuleRange where
  range_kind : TokenRangeKind
  tokens     : TokenIter

-- The ranges of a module are those that the passes walk through. The root is missing until the
-- symbols have been scanned.
structure Module where
  ranges  : List ModuleRange
  root_id : Option RootId

-- The parts of a domain name behind the first one. Yields the section that they stand in.
def consume_domain_parts : TokenIter → Except Failure (String × TokenIter)
  | dot :: part :: iter =>
    if dot.kind = .dot then do
      let (ident, _) ← consume_ident (part :: iter)
      let (parts, iter) ← consume_domain_parts iter
      .ok (dot.gap ++ "." ++ part.gap ++ ident ++ parts, iter)
    else
      .ok ("", dot :: part :: iter)
  | [dot] =>
    if dot.kind = .dot then do
      let (ident, iter) ← consume_ident []
      .ok (ident, iter)
    else
      .ok ("", [dot])
  | [] => .ok ("", [])

def consume_domain_ident (iter : TokenIter) : Except Failure (Identifier × TokenIter) := do
  let (ident, iter) ← consume_ident iter
  let (parts, iter) ← consume_domain_parts iter
  let «section» := ident ++ parts
  if '\n' ∈ «section».toList then
    .error (.parseError "module names may not span multiple lines")
  else if is_reserved_keyword «section» then
    .error (.parseError "encountered reserved keyword")
  else
    .ok («section», iter)

def consume_pragma (iter : TokenIter) : Except Failure (String × TokenIter) :=
  match iter with
  | token :: iter =>
    if token.kind = .pragma then .ok (token.text, iter)
    else .error (.parseError "expected a pragma")
  | [] => .error (.parseError "expected a pragma")

def maybe_consume_comma_separated {α : Type} (open_delim close_delim : TokenKind)
    (consumer_fn : TokenIter → Except Failure (α × TokenIter)) (item_name : String)
    (iter : TokenIter) : Except Failure (List α × TokenIter) :=
  if iter.next = some open_delim then
    consume_comma_separated_until close_delim item_name consumer_fn (iter.length + 1) true
      iter.consume []
  else
    .ok ([], iter)

def symbol_msg (symbol : Symbol) : String :=
  match symbol.variant with
  | .module .. => "the module aliased as '" ++ symbol.name ++ "' imported here"
  | .definition definition =>
    if definition.defined_in_module.isNone then
      "the builtin '" ++ symbol.name ++ "'"
    else if definition.imported_at.isSome then
      "the type '" ++ symbol.name ++ "' imported here"
    else
      "the type '" ++ symbol.name ++ "' defined here"

def Symbol.is_builtin (symbol : Symbol) : Bool :=
  match symbol.variant with
  | .module .. => false
  | .definition definition => definition.defined_in_module.isNone

def construct_symbol_conflict_error (new_symbol old_symbol : Symbol) : Failure :=
  .parseError ("symbol is defined twice: " ++ symbol_msg new_symbol ++
    if old_symbol.is_builtin then " conflicts with " ++ symbol_msg old_symbol else "")

-- Inserts a symbol, or reports the conflict.
def PassCtx.insert_symbol (ctx : PassCtx) (in_scope : SymbolScope) (symbol : Symbol) :
    Except Failure PassCtx :=
  match ctx.symbols.insert_symbol in_scope symbol with
  | .ok symbols => .ok { ctx with symbols := symbols }
  | .error (new_symbol, old_symbol) =>
    .error (construct_symbol_conflict_error new_symbol old_symbol)

structure PassSymbols where
  symbols            : List Symbol
  pragmas            : List PragmaId
  definitions        : List DefinitionId
  has_pragma_version : Bool
  has_pragma_module  : Bool

namespace PassSymbols

def new : PassSymbols := ⟨[], [], [], false, false⟩

-- The name of a module is nowhere set in the module itself, where a conflict looks for it.
def visit_pragma_range (pass : PassSymbols) (root_id : RootId) (ctx : PassCtx) (iter : TokenIter) :
    Except Failure (PassSymbols × PassCtx) := do
  let (pragma_section, iter) ← consume_pragma iter
  if pragma_section = "#module" then
    if pass.has_pragma_module then
      .error (.parseError "module name is defined twice")
    else do
      let (module_name, iter) ← consume_domain_ident iter
      if iter.next.isSome then
        .error (.parseError "expected end of #module pragma after module name")
      else
        let pragma_id := ctx.heap.pragmas.length
        let heap := { ctx.heap with pragmas := ctx.heap.pragmas ++ [.module module_name] }
        match ctx.symbols.insert_module module_name root_id with
        | .ok symbols =>
          .ok ({ pass with pragmas := pass.pragmas ++ [pragma_id], has_pragma_module := true },
            ⟨heap, symbols⟩)
        | .error _ => .error .panic
  else if pragma_section = "#version" then
    if pass.has_pragma_version then
      .error (.parseError "module version is defined twice")
    else do
      let (version, _) ← consume_integer_literal iter
      let pragma_id := ctx.heap.pragmas.length
      let heap := { ctx.heap with pragmas := ctx.heap.pragmas ++ [.version version] }
      .ok ({ pass with pragmas := pass.pragmas ++ [pragma_id], has_pragma_version := true },
        ⟨heap, ctx.symbols⟩)
  else
    .error (.parseError "illegal pragma name")

def definition_variant (kw_text : Identifier) : Option DefinitionVariant :=
  if kw_text = "struct" then some .struct
  else if kw_text = "enum" then some .enum
  else if kw_text = "union" then some .union
  else if kw_text = "func" then some .function
  else if kw_text = "primitive" then some .primitive
  else if kw_text = "composite" then some .composite
  else none

def visit_definition_range (pass : PassSymbols) (root_id : RootId) (ctx : PassCtx)
    (iter : TokenIter) : Except Failure (PassSymbols × PassCtx) :=
  match consume_any_ident iter with
  | .error _ => .error .panic
  | .ok (kw_text, iter) => do
    let (identifier, iter) ← consume_ident iter
    let (poly_vars, _) ← maybe_consume_comma_separated .openAngle .closeAngle consume_ident
      "a polymorphic variable" iter
    match definition_variant kw_text with
    | none => .error .panic
    | some variant =>
      let definition_id := ctx.heap.definitions.length
      let heap := { ctx.heap with
        definitions := ctx.heap.definitions ++ [⟨some root_id, variant, identifier, poly_vars⟩] }
      let symbol : Symbol := ⟨identifier,
        .definition ⟨some root_id, .module root_id, none, variant.class, definition_id⟩⟩
      .ok ({ pass with
        symbols := pass.symbols ++ [symbol], definitions := pass.definitions ++ [definition_id] },
        ⟨heap, ctx.symbols⟩)

def visit_range (pass : PassSymbols) (root_id : RootId) (ctx : PassCtx) (range : ModuleRange) :
    Except Failure (PassSymbols × PassCtx) :=
  match range.range_kind with
  | .definition => pass.visit_definition_range root_id ctx range.tokens
  | .pragma => pass.visit_pragma_range root_id ctx range.tokens
  | _ => .ok (pass, ctx)

def visit_ranges (pass : PassSymbols) (root_id : RootId) (ctx : PassCtx) :
    List ModuleRange → Except Failure (PassSymbols × PassCtx)
  | [] => .ok (pass, ctx)
  | range :: ranges => do
    let (pass, ctx) ← pass.visit_range root_id ctx range
    pass.visit_ranges root_id ctx ranges

-- Every definition gets a scope of its own below that of the module.
def insert_symbols (module_scope : SymbolScope) : List Symbol → PassCtx → Except Failure PassCtx
  | [], ctx => .ok ctx
  | symbol :: symbols, ctx =>
    match symbol.variant with
    | .module .. => .error .panic
    | .definition definition => do
      let table := ctx.symbols.insert_scope (some module_scope) (.definition definition.definition_id)
      let ctx ← PassCtx.insert_symbol ⟨ctx.heap, table⟩ module_scope symbol
      insert_symbols module_scope symbols ctx

-- A module without a first range is where the source panics.
def parse (module : Module) (ctx : PassCtx) : Except Failure (Module × PassCtx) :=
  if module.ranges.isEmpty then
    .error .panic
  else do
    let root_id := ctx.heap.protocol_descriptions.length
    let heap := { ctx.heap with
      protocol_descriptions := ctx.heap.protocol_descriptions ++ [⟨[], [], []⟩] }
    let (pass, ctx) ← PassSymbols.new.visit_ranges root_id ⟨heap, ctx.symbols⟩ module.ranges
    let module_scope := SymbolScope.module root_id
    let table := ctx.symbols.insert_scope (some .global) module_scope
    let ctx ← insert_symbols module_scope pass.symbols ⟨ctx.heap, table⟩
    let heap := { ctx.heap with
      protocol_descriptions := ctx.heap.protocol_descriptions.modify root_id fun root =>
        { root with
          pragmas := root.pragmas ++ pass.pragmas
          definitions := root.definitions ++ pass.definitions } }
    .ok ({ module with root_id := some root_id }, ⟨heap, ctx.symbols⟩)

end PassSymbols

namespace PassImport

-- The text behind the last dot of a module's name.
def implicit_alias (module_name : Identifier) : Identifier :=
  String.ofList ((module_name.toList.reverse.takeWhile (· ≠ '.')).reverse)

def consume_symbol_and_maybe_alias (ctx : PassCtx) (module_name : Identifier) (module_root_id : RootId)
    (iter : TokenIter) : Except Failure ((AliasedSymbol × SymbolDefinition) × TokenIter) := do
  let (symbol_identifier, iter) ← consume_ident iter
  let (alias_identifier, iter) ←
    if has_ident iter "as" then do
      let (alias_identifier, iter) ← consume_ident iter.consume
      .ok (some alias_identifier, iter)
    else
      .ok (none, iter)
  match ctx.symbols.get_symbol_by_name_defined_in_scope (.module module_root_id) symbol_identifier with
  | none =>
    .error (.parseError ("could not find symbol '" ++ symbol_identifier ++ "' within module '" ++
      module_name ++ "'"))
  | some target =>
    match target.variant with
    | .module .. => .error .panic
    | .definition definition =>
      .ok ((⟨symbol_identifier, alias_identifier, definition.definition_id⟩, definition), iter)

def alloc_import (ctx : PassCtx) (import_ : Import) : PassCtx :=
  { ctx with heap := { ctx.heap with imports := ctx.heap.imports ++ [import_] } }

def push_symbol (ctx : PassCtx) (import_id : ImportId) (symbol : AliasedSymbol) : PassCtx :=
  { ctx with heap := { ctx.heap with
      imports := ctx.heap.imports.modify import_id fun import_ =>
        match import_ with
        | .symbols module module_id symbols => .symbols module module_id (symbols ++ [symbol])
        | .module .. => import_ } }

-- Fills the import while inserting symbols in the scope of the module.
def insert_found (root_id : RootId) (import_id : ImportId) :
    List (AliasedSymbol × SymbolDefinition) → PassCtx → Except Failure PassCtx
  | [], ctx => .ok ctx
  | (imported_symbol, symbol_definition) :: found_symbols, ctx => do
    let import_name := imported_symbol.alias.getD imported_symbol.name
    let ctx ← (push_symbol ctx import_id imported_symbol).insert_symbol (.module root_id)
      ⟨import_name, .definition (symbol_definition.into_imported import_id)⟩
    insert_found root_id import_id found_symbols ctx

def insert_scoped (root_id : RootId) (import_id : ImportId) :
    List Symbol → PassCtx → Except Failure PassCtx
  | [], ctx => .ok ctx
  | symbol :: scoped_symbols, ctx =>
    match symbol.variant with
    | .module .. => .error .panic
    | .definition symbol_definition => do
      let ctx ← (push_symbol ctx import_id ⟨symbol.name, none, symbol_definition.definition_id⟩)
        |>.insert_symbol (.module root_id)
          ⟨symbol.name, .definition (symbol_definition.into_imported import_id)⟩
      insert_scoped root_id import_id scoped_symbols ctx

-- What comes behind the two colons.
def visit_imported_symbols (root_id target_root_id : RootId) (module_name : Identifier)
    (ctx : PassCtx) (iter : TokenIter) : Except Failure (PassCtx × TokenIter) := do
  let import_id := ctx.heap.imports.length
  match iter.next with
  | some .ident => do
    let ((imported_symbol, symbol_definition), iter) ←
      consume_symbol_and_maybe_alias ctx module_name target_root_id iter
    let alias_identifier := imported_symbol.alias.getD imported_symbol.name
    let ctx := alloc_import ctx (.symbols module_name target_root_id [imported_symbol])
    let ctx ← ctx.insert_symbol (.module root_id)
      ⟨alias_identifier, .definition (symbol_definition.into_imported import_id)⟩
    .ok (ctx, iter)
  | some .openCurly => do
    let (found_symbols, iter) ← consume_comma_separated .openCurly .closeCurly
      (consume_symbol_and_maybe_alias ctx module_name target_root_id) "a symbol"
      "a list of symbols to import" iter
    let ctx := alloc_import ctx (.symbols module_name target_root_id [])
    let ctx ← insert_found root_id import_id found_symbols ctx
    .ok (ctx, iter)
  | some .star => do
    let scoped_symbols :=
      (ctx.symbols.get_all_symbols_defined_in_scope (.module target_root_id)).getD []
    let ctx := alloc_import ctx (.symbols module_name target_root_id [])
    let ctx ← insert_scoped root_id import_id scoped_symbols ctx
    .ok (ctx, iter.consume)
  | _ => .error (.parseError "expected symbol name, '\x7b' or '*'")

-- What comes behind the name of the module: an alias for it, symbols of it, or neither.
def visit_target (root_id target_root_id : RootId) (module_name : Identifier) (ctx : PassCtx)
    (iter : TokenIter) : Except Failure (PassCtx × TokenIter) := do
  let import_id := ctx.heap.imports.length
  if has_ident iter "as" then do
    let (alias_name, iter) ← consume_ident iter.consume
    let ctx := alloc_import ctx (.module module_name alias_name target_root_id)
    let ctx ← ctx.insert_symbol (.module root_id) ⟨alias_name, .module target_root_id import_id⟩
    .ok (ctx, iter)
  else if iter.next = some .colonColon then
    visit_imported_symbols root_id target_root_id module_name ctx iter.consume
  else do
    let alias_name := implicit_alias module_name
    let ctx := alloc_import ctx (.module module_name alias_name target_root_id)
    let ctx ← ctx.insert_symbol (.module root_id) ⟨alias_name, .module target_root_id import_id⟩
    .ok (ctx, iter)

-- Yields the id of the import.
def visit_import_range (root_id : RootId) (ctx : PassCtx) (iter : TokenIter) :
    Except Failure (ImportId × PassCtx) := do
  let (_, iter) ← consume_any_ident iter
  let (module_name, iter) ← consume_domain_ident iter
  match ctx.symbols.get_module_by_name module_name with
  | none => .error (.parseError ("could not resolve module '" ++ module_name ++ "'"))
  | some target_root_id => do
    let import_id := ctx.heap.imports.length
    let (ctx, iter) ← visit_target root_id target_root_id module_name ctx iter
    let _ ← consume_token iter .semiColon
    .ok (import_id, ctx)

-- Yields the ids of the imports.
def visit_ranges (root_id : RootId) : List ModuleRange → PassCtx →
    Except Failure (List ImportId × PassCtx)
  | [], ctx => .ok ([], ctx)
  | range :: ranges, ctx =>
    if range.range_kind = .import then do
      let (import_id, ctx) ← visit_import_range root_id ctx range.tokens
      let (imports, ctx) ← visit_ranges root_id ranges ctx
      .ok (import_id :: imports, ctx)
    else
      visit_ranges root_id ranges ctx

def parse (module : Module) (ctx : PassCtx) : Except Failure PassCtx :=
  match module.root_id with
  | none => .error .panic
  | some root_id =>
    if module.ranges.isEmpty then
      .error .panic
    else do
      let (imports, ctx) ← visit_ranges root_id module.ranges ctx
      let heap := { ctx.heap with
        protocol_descriptions := ctx.heap.protocol_descriptions.modify root_id fun root =>
          { root with imports := root.imports ++ imports } }
      .ok ⟨heap, ctx.symbols⟩

end PassImport

-- The functions that the compiler itself defines, with their polymorphic variables.
def builtin_functions : List (Identifier × List Identifier) :=
  [("get", ["T"]), ("put", ["T"]), ("fires", ["T"]), ("create", ["T"]), ("length", ["T"]),
    ("assert", [])]

def builtin_symbol (idx : Nat) (func : Identifier × List Identifier) : Symbol :=
  ⟨func.1, .definition ⟨none, .global, none, .function, idx⟩⟩

namespace PassCtx

-- The context before the first module is fed.
def new : PassCtx where
  heap := ⟨[], [], [], builtin_functions.map fun func => ⟨none, .function, func.1, func.2⟩⟩
  symbols := {
    module_lookup := fun _ => none
    scope_lookup := Function.update (fun _ => none) .global
      (some ⟨none, builtin_functions.mapIdx builtin_symbol⟩) }

def scan_symbols : List Module → PassCtx → Except Failure (List Module × PassCtx)
  | [], ctx => .ok ([], ctx)
  | module :: modules, ctx => do
    let (module, ctx) ← PassSymbols.parse module ctx
    let (modules, ctx) ← scan_symbols modules ctx
    .ok (module :: modules, ctx)

-- The definitions of a module are parsed right behind its imports. That looks symbols up but inserts
-- none, so it is not part of what is modelled here.
def resolve_imports : List Module → PassCtx → Except Failure PassCtx
  | [], ctx => .ok ctx
  | module :: modules, ctx => do
    let ctx ← PassImport.parse module ctx
    resolve_imports modules ctx

-- The modules in the order in which they are fed.
def parse_modules (modules : List (List ModuleRange)) : Except Failure PassCtx := do
  let (modules, ctx) ← scan_symbols (modules.map fun ranges => ⟨ranges, none⟩) new
  resolve_imports modules ctx

end PassCtx

end Reowolf.Parser
