import Reowolf.Parser.ModuleSource

namespace Reowolf.Parser

def builtin_symbols : List Symbol := builtin_functions.mapIdx builtin_symbol

-- The table has scopes for some modules, with the given symbols in them.
structure Scopes (table : SymbolTable) (num_modules : Nat) (symbols : RootId → List Symbol) : Prop where
  global : table.scope_lookup .global = some ⟨none, builtin_symbols⟩
  module : ∀ i < num_modules, table.scope_lookup (.module i) = some ⟨some .global, symbols i⟩

-- The names that are taken in a module, among them those of the compiler.
def taken (symbols : List Symbol) : List Identifier := (builtin_symbols ++ symbols).map Symbol.name

section

variable {table : SymbolTable} {num_modules i : Nat} {symbols : RootId → List Symbol}

theorem taken_append (old new : List Symbol) : taken (old ++ new) = taken old ++ new.map Symbol.name := by
  simp [taken]

theorem Scopes.get_symbol_by_name (h : Scopes table num_modules symbols) (hi : i < num_modules)
    (name : Identifier) :
    table.get_symbol_by_name (.module i) name =
      ((symbols i).find? (·.name = name)).or (builtin_symbols.find? (·.name = name)) := by
  have hg := h.global
  simp only [SymbolTable.get_symbol_by_name, SymbolTable.scope_depth, SymbolTable.seek_symbol,
    h.module i hi, bind, Option.bind, ScopedSymbols.get_symbol]
  cases (symbols i).find? (·.name = name)
  case some => rfl
  case none =>
    simp only [hg, Option.none_or]
    cases builtin_symbols.find? (·.name = name) <;> rfl

theorem Scopes.get_symbol_eq_none (h : Scopes table num_modules symbols) (hi : i < num_modules)
    (name : Identifier) :
    table.get_symbol_by_name (.module i) name = none ↔ name ∉ taken (symbols i) := by
  rw [h.get_symbol_by_name hi, Option.or_eq_none_iff]
  simp only [List.find?_eq_none, decide_eq_true_eq, taken, List.mem_map, List.mem_append]
  constructor
  · rintro ⟨hs, hb⟩ ⟨symbol, hm, he⟩
    exact hm.elim (fun hm => hb symbol hm he) (fun hm => hs symbol hm he)
  · intro hn
    exact ⟨fun symbol hm he => hn ⟨symbol, .inr hm, he⟩, fun symbol hm he => hn ⟨symbol, .inl hm, he⟩⟩

-- The scope of a definition is none of those of the modules.
theorem Scopes.insert_definition (h : Scopes table num_modules symbols)
    (parent_scope : Option SymbolScope) (definition_id : DefinitionId) :
    Scopes (table.insert_scope parent_scope (.definition definition_id)) num_modules symbols where
  global := by simp [SymbolTable.insert_scope, h.global]
  module i hi := by simp [SymbolTable.insert_scope, h.module i hi]

theorem Scopes.insert_module (h : Scopes table num_modules symbols) :
    Scopes (table.insert_scope (some .global) (.module num_modules)) (num_modules + 1)
      (Function.update symbols num_modules []) where
  global := by simp [SymbolTable.insert_scope, h.global]
  module i hi := by
    by_cases he : i = num_modules
    · simp [SymbolTable.insert_scope, he]
    · have hi : i < num_modules := by omega
      simp [SymbolTable.insert_scope, he, h.module i hi]

end

-- What a context has in common with the one before, apart from the symbols.
structure SameHeap (ctx ctx' : PassCtx) : Prop where
  definitions : ctx'.heap.definitions = ctx.heap.definitions
  roots       : ctx'.heap.protocol_descriptions.length = ctx.heap.protocol_descriptions.length
  modules     : ctx'.symbols.module_lookup = ctx.symbols.module_lookup

namespace SameHeap

theorem refl (ctx : PassCtx) : SameHeap ctx ctx := ⟨rfl, rfl, rfl⟩

theorem trans {ctx ctx' ctx'' : PassCtx} (h : SameHeap ctx ctx') (h' : SameHeap ctx' ctx'') :
    SameHeap ctx ctx'' :=
  ⟨h'.definitions.trans h.definitions, h'.roots.trans h.roots, h'.modules.trans h.modules⟩

theorem alloc_import (ctx : PassCtx) (import_ : Import) :
    SameHeap ctx (PassImport.alloc_import ctx import_) :=
  ⟨rfl, rfl, rfl⟩

theorem push_symbol (ctx : PassCtx) (import_id : ImportId) (symbol : AliasedSymbol) :
    SameHeap ctx (PassImport.push_symbol ctx import_id symbol) :=
  ⟨rfl, rfl, rfl⟩

end SameHeap

-- Symbols are put into the scope of a module if their names are new there, each of them. Otherwise
-- the conflict is reported.
structure Inserts (ctx : PassCtx) (num_modules : Nat) (symbols : RootId → List Symbol) (i : RootId)
    (new : List Symbol) (result : Except Failure PassCtx) : Prop where
  ok : (taken (symbols i ++ new)).Nodup → ∃ ctx', result = .ok ctx' ∧ SameHeap ctx ctx' ∧
    Scopes ctx'.symbols num_modules (Function.update symbols i (symbols i ++ new))
  error : ¬ (taken (symbols i ++ new)).Nodup → ∃ message, result = .error (.parseError message)

section

variable {ctx : PassCtx} {num_modules i : Nat} {symbols : RootId → List Symbol}

theorem insert_symbol_ok (h : Scopes ctx.symbols num_modules symbols) (hi : i < num_modules)
    {symbol : Symbol} (hn : symbol.name ∉ taken (symbols i)) :
    ∃ ctx', ctx.insert_symbol (.module i) symbol = .ok ctx' ∧ SameHeap ctx ctx' ∧
      Scopes ctx'.symbols num_modules (Function.update symbols i (symbols i ++ [symbol])) := by
  have hs := (h.get_symbol_eq_none hi symbol.name).mpr hn
  simp only [PassCtx.insert_symbol, SymbolTable.insert_symbol, hs]
  refine ⟨_, rfl, ⟨rfl, rfl, rfl⟩, ⟨?_, fun k hk => ?_⟩⟩
  · simp [h.global]
  · by_cases hki : k = i
    · subst hki
      simp [h.module k hi, ScopedSymbols.push]
    · simp [hki, h.module k hk]

theorem insert_symbol_error (h : Scopes ctx.symbols num_modules symbols) (hi : i < num_modules)
    {symbol : Symbol} (hn : symbol.name ∈ taken (symbols i)) :
    ∃ message, ctx.insert_symbol (.module i) symbol = .error (.parseError message) := by
  simp only [PassCtx.insert_symbol, SymbolTable.insert_symbol]
  match hs : ctx.symbols.get_symbol_by_name (.module i) symbol.name with
  | none => exact absurd hn ((h.get_symbol_eq_none hi _).mp hs)
  | some _ => exact ⟨_, rfl⟩

theorem Inserts.nil (h : Scopes ctx.symbols num_modules symbols)
    (hn : (taken (symbols i)).Nodup) : Inserts ctx num_modules symbols i [] (.ok ctx) where
  ok _ := ⟨ctx, rfl, .refl ctx, by simpa using h⟩
  error he := absurd (by simpa using hn) he

-- The first symbol is inserted, and then the others.
theorem Inserts.cons {ctx₀ : PassCtx} {symbol : Symbol} {new : List Symbol}
    {next : PassCtx → Except Failure PassCtx} (hc : SameHeap ctx ctx₀)
    (h : Scopes ctx₀.symbols num_modules symbols) (hi : i < num_modules)
    (hn : (taken (symbols i)).Nodup)
    (hnext : ∀ ctx', SameHeap ctx ctx' →
      Scopes ctx'.symbols num_modules (Function.update symbols i (symbols i ++ [symbol])) →
      (taken (symbols i ++ [symbol])).Nodup →
      Inserts ctx' num_modules (Function.update symbols i (symbols i ++ [symbol])) i new (next ctx')) :
    Inserts ctx num_modules symbols i (symbol :: new)
      (ctx₀.insert_symbol (.module i) symbol >>= next) := by
  have hcons : symbols i ++ symbol :: new = symbols i ++ [symbol] ++ new := by simp
  by_cases hs : symbol.name ∈ taken (symbols i)
  · obtain ⟨message, he⟩ := insert_symbol_error h hi hs
    rw [he]
    refine ⟨fun hnodup => ?_, fun _ => ⟨message, rfl⟩⟩
    rw [taken_append] at hnodup
    have := (List.nodup_append.mp hnodup).2.2 _ hs symbol.name (by simp)
    exact absurd rfl this
  · obtain ⟨ctx', he, hc', h'⟩ := insert_symbol_ok h hi hs
    have hn' : (taken (symbols i ++ [symbol])).Nodup := by
      rw [taken_append]
      refine List.nodup_append.mpr ⟨hn, List.nodup_singleton _, fun a ha b hb => ?_⟩
      rw [List.mem_singleton.mp hb]
      exact fun he => hs (he ▸ ha)
    have hnext := hnext ctx' (hc.trans hc') h' hn'
    rw [he]
    constructor
    case ok =>
      intro hnodup
      rw [hcons] at hnodup
      obtain ⟨ctx'', he'', hc'', h''⟩ := hnext.ok (by simpa using hnodup)
      refine ⟨ctx'', he'', (hc.trans hc').trans hc'', ?_⟩
      rw [hcons]
      simpa using h''
    case error =>
      intro hnodup
      rw [hcons] at hnodup
      exact hnext.error (by simpa using hnodup)

theorem insert_symbols_inserts (hi : i < num_modules) (new : List Symbol)
    (hd : ∀ symbol ∈ new, ∃ definition, symbol.variant = .definition definition)
    (h : Scopes ctx.symbols num_modules symbols) (hn : (taken (symbols i)).Nodup) :
    Inserts ctx num_modules symbols i new (PassSymbols.insert_symbols (.module i) new ctx) := by
  induction new generalizing ctx symbols
  case nil => exact .nil h hn
  case cons symbol new ih =>
    obtain ⟨⟨definition, hv⟩, hd⟩ := List.forall_mem_cons.mp hd
    simp only [PassSymbols.insert_symbols, hv]
    refine .cons ⟨rfl, rfl, rfl⟩ (h.insert_definition (some (.module i)) _) hi hn ?_
    exact fun ctx' _ h' hn' => ih hd h' (by simpa using hn')

-- The symbol under which an import shows a definition.
def imported_symbol (import_id : ImportId) (found : AliasedSymbol × SymbolDefinition) : Symbol :=
  ⟨found.1.alias.getD found.1.name, .definition (found.2.into_imported import_id)⟩

theorem insert_found_inserts (hi : i < num_modules) (import_id : ImportId)
    (found : List (AliasedSymbol × SymbolDefinition)) (h : Scopes ctx.symbols num_modules symbols)
    (hn : (taken (symbols i)).Nodup) :
    Inserts ctx num_modules symbols i (found.map (imported_symbol import_id))
      (PassImport.insert_found i import_id found ctx) := by
  induction found generalizing ctx symbols
  case nil => exact .nil h hn
  case cons found rest ih =>
    obtain ⟨symbol, definition⟩ := found
    refine .cons (.push_symbol ctx import_id symbol) h hi hn ?_
    exact fun ctx' _ h' hn' => ih h' (by simpa using hn')

theorem insert_scoped_inserts (hi : i < num_modules) (import_id : ImportId)
    (found : List (Identifier × SymbolDefinition)) (h : Scopes ctx.symbols num_modules symbols)
    (hn : (taken (symbols i)).Nodup) :
    Inserts ctx num_modules symbols i
      (found.map fun symbol => ⟨symbol.1, .definition (symbol.2.into_imported import_id)⟩)
      (PassImport.insert_scoped i import_id
        (found.map fun symbol => ⟨symbol.1, .definition symbol.2⟩) ctx) := by
  induction found generalizing ctx symbols
  case nil => exact .nil h hn
  case cons symbol rest ih =>
    obtain ⟨name, definition⟩ := symbol
    refine .cons (.push_symbol ctx import_id _) h hi hn ?_
    exact fun ctx' _ h' hn' => ih h' (by simpa using hn')

end

end Reowolf.Parser
