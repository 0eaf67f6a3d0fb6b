import Reowolf.Parser.ScopeTables

namespace Reowolf.Parser

-- What a visible name stands for: a function of the compiler, the definition with a name in a module,
-- or a module.
inductive Entity
  | builtin (name : Identifier)
  | definition (m : ModuleSource) (name : Identifier)
  | module (m : ModuleSource)
deriving DecidableEq

def find_module (modules : List ModuleSource) (name : Identifier) : Option ModuleSource :=
  modules.find? fun m => decide (ModuleSource.module_name m = some name)

-- An item has to be defined in the module itself that it is imported from.
def ImportItem.shown (target : ModuleSource) (item : ImportItem) : Option (Identifier × Entity) :=
  if item.name ∈ ModuleSource.defined_names target then
    some (item.visible_name, .definition target item.name)
  else
    none

def defined_entities (m : ModuleSource) : List (Identifier × Entity) :=
  (ModuleSource.defined_names m).map fun name => (name, .definition m name)

-- The names that an import makes visible, if there are the module and the symbols that it names.
def ImportSource.shown (modules : List ModuleSource) (source : ImportSource) :
    Option (List (Identifier × Entity)) := do
  let target ← find_module modules source.module_name.text
  match source with
  | .module name «alias» =>
    some [(«alias».getD (PassImport.implicit_alias name.text), .module target)]
  | .symbol _ item => [item].mapM (ImportItem.shown target)
  | .symbols _ items => items.mapM (ImportItem.shown target)
  | .star _ => some (defined_entities target)

def shown_by_imports (modules : List ModuleSource) : List RangeSource →
    Option (List (Identifier × Entity))
  | [] => some []
  | .import source :: ranges => do
    let shown ← source.shown modules
    let rest ← shown_by_imports modules ranges
    some (shown ++ rest)
  | _ :: ranges => shown_by_imports modules ranges

def builtin_entities : List (Identifier × Entity) :=
  builtin_functions.map fun func => (func.1, .builtin func.1)

-- All names that are visible in a module, with what they stand for.
def visible (modules : List ModuleSource) (m : ModuleSource) : Option (List (Identifier × Entity)) :=
  (shown_by_imports modules m).map fun shown => builtin_entities ++ (defined_entities m ++ shown)

-- What a symbol stands for, by the definition in the heap that it points to.
def entity_of (definitions : List ReservedDefinition) (modules : List ModuleSource) (symbol : Symbol) :
    Option Entity :=
  match symbol.variant with
  | .module root_id _ => (modules[root_id]?).map .module
  | .definition definition => do
    let reserved ← definitions[definition.definition_id]?
    match reserved.defined_in with
    | none => some (.builtin reserved.identifier)
    | some root_id => (modules[root_id]?).map fun m => .definition m reserved.identifier

structure Shows (definitions : List ReservedDefinition) (modules : List ModuleSource)
    (symbol : Symbol) (shown : Identifier × Entity) : Prop where
  name   : symbol.name = shown.1
  entity : entity_of definitions modules symbol = some shown.2

-- The symbol of a definition in the module that defines it.
structure Defined (definitions : List ReservedDefinition) (root_id : RootId) (symbol : Symbol)
    (name : Identifier) : Prop where
  same    : symbol.name = name
  variant : ∃ definition reserved, symbol.variant = .definition definition ∧
    definition.imported_at = none ∧ definition.defined_in_scope = .module root_id ∧
    definitions[definition.definition_id]? = some reserved ∧ reserved.defined_in = some root_id ∧
    reserved.identifier = name

def Imported (symbol : Symbol) : Prop :=
  match symbol.variant with
  | .module .. => True
  | .definition definition => definition.imported_at.isSome = true

-- The scopes of the modules, each with what is defined in it before what it imports, and the modules
-- by their names.
structure Tables (ctx : PassCtx) (modules : List ModuleSource) (defined imported : RootId → List Symbol) :
    Prop where
  scopes   : Scopes ctx.symbols modules.length fun i => defined i ++ imported i
  roots    : ctx.heap.protocol_descriptions.length = modules.length
  builtin  : List.Forall₂ (Shows ctx.heap.definitions modules) builtin_symbols builtin_entities
  defined  : ∀ i m, modules[i]? = some m →
    List.Forall₂ (Defined ctx.heap.definitions i) (defined i) (ModuleSource.defined_names m)
  imported : ∀ i, ∀ symbol ∈ imported i, Imported symbol
  module   : ∀ name i, ctx.symbols.module_lookup name = some i ↔
    ∃ m, modules[i]? = some m ∧ ModuleSource.module_name m = some name

-- An import of a module that has been found, without the tokens.
def resolve_source (root_id : RootId) (ctx : PassCtx) (target : RootId) (source : ImportSource) :
    Except Failure PassCtx :=
  let import_id := ctx.heap.imports.length
  let module_name := source.module_name.text
  match source with
  | .module _ «alias» =>
    let alias_name := «alias».getD (PassImport.implicit_alias module_name)
    (PassImport.alloc_import ctx (.module module_name alias_name target)).insert_symbol
      (.module root_id) ⟨alias_name, .module target import_id⟩
  | .symbol _ item => do
    let found ← find_item ctx module_name target item
    (PassImport.alloc_import ctx (.symbols module_name target [found.1])).insert_symbol
      (.module root_id) (imported_symbol import_id found)
  | .symbols _ items => do
    let found ← items.mapM (find_item ctx module_name target)
    PassImport.insert_found root_id import_id found
      (PassImport.alloc_import ctx (.symbols module_name target []))
  | .star _ =>
    PassImport.insert_scoped root_id import_id
      ((ctx.symbols.get_all_symbols_defined_in_scope (.module target)).getD [])
      (PassImport.alloc_import ctx (.symbols module_name target []))

theorem has_ident_of {kind : TokenKind} (h : kind ≠ .ident) (text : Identifier) (rest : TokenIter) :
    has_ident (.of kind :: rest) text = false := by
  simp [has_ident, peek_ident, h]

-- The tokens behind the name of a module.
def ImportSource.target_tokens : ImportSource → List Token
  | module _ none => []
  | module _ (some «alias») => [.ident "as", .ident «alias»]
  | symbol _ item => .of .colonColon :: item.tokens
  | symbols _ items => .of .colonColon :: .of .openCurly ::
      (comma_separated (items.map ImportItem.tokens) ++ [.of .closeCurly])
  | star _ => [.of .colonColon, .of .star]

theorem import_tokens_eq (source : ImportSource) :
    source.tokens = .ident "import" ::
      (source.module_name.tokens ++ (source.target_tokens ++ [.of .semiColon])) := by
  match source with
  | .module _ none | .module _ (some _) | .symbol .. | .symbols .. | .star _ =>
    simp [ImportSource.tokens, ImportSource.target_tokens, ImportSource.module_name]

theorem visit_target_colons (root_id target : RootId) (module_name : Identifier) (ctx : PassCtx)
    (iter : TokenIter) :
    PassImport.visit_target root_id target module_name ctx (.of .colonColon :: iter) =
      PassImport.visit_imported_symbols root_id target module_name ctx iter := by
  have hi : has_ident (.of .colonColon :: iter) "as" = false := has_ident_of (by simp) "as" iter
  simp [PassImport.visit_target, hi]

theorem visit_target_tokens (root_id : RootId) (ctx : PassCtx) (target : RootId)
    {source : ImportSource} (h : source.WellFormed) :
    PassImport.visit_target root_id target source.module_name.text ctx
        (source.target_tokens ++ [.of .semiColon]) =
      resolve_source root_id ctx target source >>= fun ctx' => .ok (ctx', [.of .semiColon]) := by
  match source, h with
  | .module name none, _ =>
    change PassImport.visit_target root_id target name.text ctx [.of .semiColon] = _
    have hi : has_ident [.of .semiColon] "as" = false := has_ident_of (by simp) "as" []
    simp [PassImport.visit_target, hi, resolve_source, ImportSource.module_name]
  | .module name (some ident), h =>
    change PassImport.visit_target root_id target name.text ctx
      [.ident "as", .ident ident, .of .semiColon] = _
    have hi : has_ident [.ident "as", .ident ident, .of .semiColon] "as" = true := by
      simp [has_ident]
    simp only [PassImport.visit_target, hi, if_true, TokenIter.consume_cons,
      consume_ident_ident (h.alias name ident rfl)]
    rfl
  | .symbol name item, h =>
    have hn : TokenIter.next (item.tokens ++ [.of .semiColon]) = some .ident := by
      simp [ImportItem.tokens]
    have hs : TokenIter.next [.of .semiColon] ≠ some .ident := by simp
    have hitem := fun ctx => consume_item_tokens ctx name.text target
      (h.items item (List.mem_singleton_self item)) hs
    have hcolons := visit_target_colons root_id target name.text ctx (item.tokens ++ [.of .semiColon])
    refine hcolons.trans ?_
    simp only [PassImport.visit_imported_symbols, hn, hitem, resolve_source, ImportSource.module_name]
    cases find_item ctx name.text target item <;> rfl
  | .symbols name items, h =>
    have hitems := fun ctx => consume_items_tokens ctx name.text target
      (fun item (hi : item ∈ items) => h.items item hi) [.of .semiColon]
    have hcolons := visit_target_colons root_id target name.text ctx (.of .openCurly ::
      (comma_separated (items.map ImportItem.tokens) ++ [.of .closeCurly, .of .semiColon]))
    simp only [ImportSource.target_tokens, List.cons_append, List.append_assoc, List.nil_append]
    refine hcolons.trans ?_
    simp only [PassImport.visit_imported_symbols, TokenIter.next_cons, Token.kind_of, hitems,
      resolve_source, ImportSource.module_name]
    cases items.mapM (find_item ctx name.text target) <;> rfl
  | .star name, _ =>
    exact visit_target_colons root_id target name.text ctx [.of .star, .of .semiColon]

-- The tokens of an import are read as what they were written for.
theorem visit_import_range_tokens (root_id : RootId) (ctx : PassCtx) {source : ImportSource}
    (h : source.WellFormed) :
    PassImport.visit_import_range root_id ctx source.tokens =
      match ctx.symbols.get_module_by_name source.module_name.text with
      | none =>
        .error (.parseError ("could not resolve module '" ++ source.module_name.text ++ "'"))
      | some target => resolve_source root_id ctx target source >>= fun ctx' =>
        .ok (ctx.heap.imports.length, ctx') := by
  have hd : TokenIter.next (source.target_tokens ++ [.of .semiColon]) ≠ some .dot := by
    cases source
    case module _ «alias» => cases «alias» <;> simp [ImportSource.target_tokens]
    all_goals simp [ImportSource.target_tokens]
  have hread := consume_domain_ident_tokens h.name hd
  simp only [PassImport.visit_import_range, import_tokens_eq, consume_any_ident_ident, bind,
    Except.bind, hread]
  generalize ctx.symbols.get_module_by_name source.module_name.text = target
  cases target
  case none => rfl
  case some target =>
    simp only [visit_target_tokens root_id ctx target h, bind, Except.bind]
    cases resolve_source root_id ctx target source <;> simp

section

variable {α β : Type} {R : α → β → Prop}

theorem exists_of_mem_left {as : List α} {bs : List β} (h : List.Forall₂ R as bs) {a : α}
    (ha : a ∈ as) : ∃ b ∈ bs, R a b := by
  induction h
  case nil => cases ha
  case cons hr _ ih =>
    cases List.mem_cons.mp ha
    case inl he => exact ⟨_, List.mem_cons_self, he ▸ hr⟩
    case inr ha =>
      obtain ⟨b, hb, hr⟩ := ih ha
      exact ⟨b, List.mem_cons_of_mem _ hb, hr⟩

theorem exists_of_mem_right {as : List α} {bs : List β} (h : List.Forall₂ R as bs) {b : β}
    (hb : b ∈ bs) : ∃ a ∈ as, R a b :=
  exists_of_mem_left h.flip hb

end

theorem builtin_symbols_global : ∀ symbol ∈ builtin_symbols, ∃ definition,
    symbol.variant = .definition definition ∧ definition.defined_in_scope = .global := by
  intro symbol h
  obtain ⟨idx, hl, he⟩ := List.getElem_of_mem h
  rw [← he]
  exact ⟨_, by simp [builtin_symbols, builtin_symbol]; rfl, rfl⟩

section

variable {ctx : PassCtx} {modules : List ModuleSource} {defined imported : RootId → List Symbol}
  {i j : RootId} {m target : ModuleSource}

theorem Tables.lt (h : modules[i]? = some m) : i < modules.length :=
  (List.getElem?_eq_some_iff.mp h).1

-- A name is looked up among the symbols that a module defines itself, whatever it imports.
theorem Tables.find_defined (h : Tables ctx modules defined imported) (hj : modules[j]? = some target)
    (name : Identifier) :
    ctx.symbols.get_symbol_by_name_defined_in_scope (.module j) name =
      (defined j).find? (·.name = name) := by
  simp only [SymbolTable.get_symbol_by_name_defined_in_scope,
    h.scopes.get_symbol_by_name (Tables.lt hj), List.find?_append]
  cases hd : (defined j).find? (·.name = name)
  case some symbol =>
    obtain ⟨_, _, hdef⟩ := exists_of_mem_left (h.defined j target hj) (List.mem_of_find?_eq_some hd)
    obtain ⟨definition, _, hv, hi, hs, _⟩ := hdef.variant
    simp [hd, hv, hi, hs]
  case none =>
    cases hi : (imported j).find? (·.name = name)
    case some symbol =>
      have him := h.imported j symbol (List.mem_of_find?_eq_some hi)
      obtain ⟨_, variant⟩ := symbol
      cases variant
      case module => simp [hd, hi]
      case definition =>
        have him : _ = true := him
        simp [hd, hi, him]
    case none =>
      cases hb : builtin_symbols.find? (·.name = name)
      case some symbol =>
        obtain ⟨definition, hv, hs⟩ := builtin_symbols_global symbol (List.mem_of_find?_eq_some hb)
        simp [hd, hi, hb, hv, hs]
      case none => simp [hd, hi, hb]

-- The symbols that a star stands for are those that the module defines itself.
theorem Tables.all_defined (h : Tables ctx modules defined imported) (hj : modules[j]? = some target) :
    ctx.symbols.get_all_symbols_defined_in_scope (.module j) = some (defined j) := by
  simp only [SymbolTable.get_all_symbols_defined_in_scope, h.scopes.module j (Tables.lt hj),
    Option.map_some, List.filter_append, Option.some.injEq]
  have hd := h.defined j target hj
  have hi := h.imported j
  refine (congrArg₂ (· ++ ·) (List.filter_eq_self.mpr fun symbol hm => ?_)
    (List.filter_eq_nil_iff.mpr fun symbol hm => ?_)).trans (List.append_nil _)
  · obtain ⟨_, _, hdef⟩ := exists_of_mem_left hd hm
    obtain ⟨definition, _, hv, hi, _⟩ := hdef.variant
    simp [hv, hi]
  · have him := hi symbol hm
    obtain ⟨_, variant⟩ := symbol
    match variant, him with
    | .module .., _ => simp
    | .definition definition, him =>
      have him : definition.imported_at.isSome = true := him
      simpa [Option.isSome_iff_ne_none] using him

-- A definition is shown under the name of the import, as what it is in the module that defines it.
theorem Tables.shows_definition (hj : modules[j]? = some target) {symbol : Symbol}
    {name : Identifier} (h : Defined ctx.heap.definitions j symbol name) :
    ∃ definition, symbol.variant = .definition definition ∧ ∀ import_id visible_name,
      Shows ctx.heap.definitions modules
        ⟨visible_name, .definition (definition.into_imported import_id)⟩
        (visible_name, .definition target name) := by
  obtain ⟨definition, reserved, hv, _, _, hr, hin, hid⟩ := h.variant
  refine ⟨definition, hv, fun import_id visible_name => ⟨rfl, ?_⟩⟩
  simp [entity_of, SymbolDefinition.into_imported, hr, hin, hj, hid]

theorem Tables.find_item_ok (h : Tables ctx modules defined imported)
    (hj : modules[j]? = some target) (module_name : Identifier) {item : ImportItem}
    {shown : Identifier × Entity} (hs : item.shown target = some shown) :
    ∃ found, find_item ctx module_name j item = .ok found ∧ ∀ import_id,
      Shows ctx.heap.definitions modules (imported_symbol import_id found) shown := by
  unfold ImportItem.shown at hs
  split at hs
  case isFalse => cases hs
  case isTrue hm =>
    cases hs
    obtain ⟨symbol, hsym, hdef⟩ := exists_of_mem_right (h.defined j target hj) hm
    have hfind : ((defined j).find? (·.name = item.name)).isSome = true :=
      List.find?_isSome.mpr ⟨symbol, hsym, by simp [hdef.same]⟩
    obtain ⟨symbol', hsome⟩ := Option.isSome_iff_exists.mp hfind
    obtain ⟨name, _, hdef'⟩ := exists_of_mem_left (h.defined j target hj)
      (List.mem_of_find?_eq_some hsome)
    have hname : name = item.name := by
      have := List.find?_some hsome
      rw [← hdef'.same]
      simpa using this
    subst hname
    obtain ⟨definition, hv, hshows⟩ := Tables.shows_definition hj hdef'
    refine ⟨(⟨item.name, item.alias, definition.definition_id⟩, definition), ?_,
      fun import_id => hshows import_id _⟩
    simp [find_item, h.find_defined hj, hsome, hv]

theorem Tables.find_item_error (h : Tables ctx modules defined imported)
    (hj : modules[j]? = some target) (module_name : Identifier) {item : ImportItem}
    (hs : item.shown target = none) :
    ∃ message, find_item ctx module_name j item = .error (.parseError message) := by
  unfold ImportItem.shown at hs
  split at hs
  case isTrue => cases hs
  case isFalse hm =>
    have hnone : (defined j).find? (·.name = item.name) = none := by
      rw [List.find?_eq_none]
      intro symbol hsym he
      obtain ⟨name, hn, hdef⟩ := exists_of_mem_left (h.defined j target hj) hsym
      rw [hdef.same] at he
      exact hm (of_decide_eq_true he ▸ hn)
    unfold find_item
    rw [h.find_defined hj, hnone]
    exact ⟨_, rfl⟩

theorem Tables.find_items_ok (h : Tables ctx modules defined imported)
    (hj : modules[j]? = some target) (module_name : Identifier) (import_id : ImportId)
    {items : List ImportItem} {shown : List (Identifier × Entity)}
    (hs : items.mapM (ImportItem.shown target) = some shown) :
    ∃ found, items.mapM (find_item ctx module_name j) = .ok found ∧
      List.Forall₂ (Shows ctx.heap.definitions modules) (found.map (imported_symbol import_id)) shown := by
  induction items generalizing shown
  case nil =>
    cases hs
    exact ⟨[], rfl, .nil⟩
  case cons item items ih =>
    rw [List.mapM_cons] at hs
    obtain ⟨first, hf, hs⟩ := Option.bind_eq_some_iff.mp hs
    obtain ⟨rest, hr, hs⟩ := Option.bind_eq_some_iff.mp hs
    cases hs
    obtain ⟨found, hfound, hshows⟩ := h.find_item_ok hj module_name hf
    obtain ⟨founds, hfounds, hshowss⟩ := ih hr
    refine ⟨found :: founds, ?_, .cons (hshows import_id) hshowss⟩
    rw [List.mapM_cons, hfound, hfounds]
    rfl

theorem Tables.find_items_error (h : Tables ctx modules defined imported)
    (hj : modules[j]? = some target) (module_name : Identifier) {items : List ImportItem}
    (hs : items.mapM (ImportItem.shown target) = none) :
    ∃ message, items.mapM (find_item ctx module_name j) = .error (.parseError message) := by
  induction items
  case nil => cases hs
  case cons item items ih =>
    rw [List.mapM_cons] at hs ⊢
    match hf : item.shown target with
    | none =>
      obtain ⟨message, he⟩ := h.find_item_error hj module_name hf
      exact ⟨message, by rw [he]; rfl⟩
    | some first =>
      obtain ⟨found, hfound, _⟩ := h.find_item_ok hj module_name hf
      match hr : items.mapM (ImportItem.shown target) with
      | some rest =>
        rw [hf, hr] at hs
        cases hs
      | none =>
        obtain ⟨message, he⟩ := ih hr
        exact ⟨message, by rw [hfound, he]; rfl⟩

end

end Reowolf.Parser
