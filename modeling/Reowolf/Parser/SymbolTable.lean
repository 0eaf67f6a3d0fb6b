import Reowolf.Parser.Tokens
import Mathlib.Logic.Function.Basic

namespace Reowolf.Parser

abbrev RootId   := Nat
abbrev ImportId := Nat

inductive SymbolScope
  | global
  | module (root_id : RootId)
  | definition (definition_id : DefinitionId)
deriving DecidableEq

inductive DefinitionClass
  | struct
  | enum
  | union
  | function
  | component
deriving DecidableEq

-- A builtin symbol is not defined in a module.
structure SymbolDefinition where
  defined_in_module : Option RootId
  defined_in_scope  : SymbolScope
  imported_at       : Option ImportId
  «class»           : DefinitionClass
  definition_id     : DefinitionId
deriving DecidableEq

def SymbolDefinition.into_imported (definition : SymbolDefinition) (imported_at : ImportId) :
    SymbolDefinition :=
  { definition with imported_at := some imported_at }

inductive SymbolVariant
  | module (root_id : RootId) (introduced_at : ImportId)
  | definition (definition : SymbolDefinition)
deriving DecidableEq

structure Symbol where
  name    : Identifier
  variant : SymbolVariant
deriving DecidableEq

structure ScopedSymbols where
  parent_scope : Option SymbolScope
  symbols      : List Symbol

namespace ScopedSymbols

def get_symbol (scope : ScopedSymbols) (name : Identifier) : Option Symbol :=
  scope.symbols.find? (·.name = name)

def push (scope : ScopedSymbols) (symbol : Symbol) : ScopedSymbols :=
  { scope with symbols := scope.symbols ++ [symbol] }

end ScopedSymbols

structure SymbolTable where
  module_lookup : Identifier → Option RootId
  scope_lookup  : SymbolScope → Option ScopedSymbols

namespace SymbolTable

def new : SymbolTable := ⟨fun _ => none, fun _ => none⟩

-- A naming conflict returns the module that has the name already.
def insert_module (table : SymbolTable) (module_name : Identifier) (root_id : RootId) :
    Except RootId SymbolTable :=
  match table.module_lookup module_name with
  | some other => .error other
  | none => .ok { table with module_lookup := Function.update table.module_lookup module_name root_id }

def get_module_by_name (table : SymbolTable) (name : Identifier) : Option RootId :=
  table.module_lookup name

def insert_scope (table : SymbolTable) (parent_scope : Option SymbolScope) (new_scope : SymbolScope) :
    SymbolTable :=
  { table with scope_lookup := Function.update table.scope_lookup new_scope (some ⟨parent_scope, []⟩) }

-- The scope of a definition lies in that of a module, which lies in the global scope, so there are at
-- most this many scopes on the way to the outermost one.
def scope_depth : Nat := 3

-- The first symbol with a name in a scope and its parents.
def seek_symbol (table : SymbolTable) (name : Identifier) : (depth : Nat) → SymbolScope → Option Symbol
  | 0, _ => none
  | depth + 1, in_scope => do
    let scope ← table.scope_lookup in_scope
    match scope.get_symbol name with
    | some symbol => some symbol
    | none => table.seek_symbol name depth (← scope.parent_scope)

def get_symbol_by_name (table : SymbolTable) (in_scope : SymbolScope) (name : Identifier) :
    Option Symbol :=
  table.seek_symbol name scope_depth in_scope

-- The name may not exist in the scope or any of its parents.
def insert_symbol (table : SymbolTable) (in_scope : SymbolScope) (symbol : Symbol) :
    Except (Symbol × Symbol) SymbolTable :=
  match table.get_symbol_by_name in_scope symbol.name with
  | some existing_symbol => .error (symbol, existing_symbol)
  | none =>
    .ok { table with
      scope_lookup := Function.update table.scope_lookup in_scope
        ((table.scope_lookup in_scope).map (·.push symbol)) }

-- In-scope modules are always imported, and what is defined in the global scope is defined by the
-- compiler.
def get_symbol_by_name_defined_in_scope (table : SymbolTable) (in_scope : SymbolScope)
    (name : Identifier) : Option Symbol := do
  let symbol ← table.get_symbol_by_name in_scope name
  match symbol.variant with
  | .module .. => none
  | .definition definition =>
    if definition.imported_at.isSome ∨ definition.defined_in_scope = .global then
      none
    else
      some symbol

-- Imported symbols are ignored.
def get_all_symbols_defined_in_scope (table : SymbolTable) (in_scope : SymbolScope) :
    Option (List Symbol) :=
  (table.scope_lookup in_scope).map fun scope =>
    scope.symbols.filter fun symbol =>
      match symbol.variant with
      | .module .. => false
      | .definition definition => definition.imported_at.isNone

end SymbolTable

end Reowolf.Parser
