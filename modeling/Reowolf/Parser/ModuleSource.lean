import Reowolf.Parser.ModuleScopes
import Reowolf.Parser.ExpressionRoundTrip

namespace Reowolf.Parser

-- A part of a domain name behind the first one, with what is written around the dot before it.
structure DomainPart where
  dot_gap : String
  gap     : String
  ident   : Identifier
deriving DecidableEq

structure DomainName where
  first : Identifier
  parts : List DomainPart
deriving DecidableEq

structure ImportItem where
  name    : Identifier
  «alias» : Option Identifier
deriving DecidableEq

-- The name under which an item is imported.
def ImportItem.visible_name (item : ImportItem) : Identifier := item.alias.getD item.name

inductive ImportSource
  | module (name : DomainName) («alias» : Option Identifier)
  | symbol (name : DomainName) (item : ImportItem)
  | symbols (name : DomainName) (items : List ImportItem)
  | star (name : DomainName)
deriving DecidableEq

inductive RangeSource
  | module (name : DomainName)
  | version (version : BitVec 64)
  | import (source : ImportSource)
  | definition (variant : DefinitionVariant) (name : Identifier) (poly_vars : List Identifier)
    (body : List Token)
  | code (tokens : List Token)
deriving DecidableEq

-- A module as it is written: its pragmas, imports and definitions, in any order.
abbrev ModuleSource := List RangeSource

namespace DomainPart

def text (part : DomainPart) : String := part.dot_gap ++ "." ++ part.gap ++ part.ident

def tokens (part : DomainPart) : List Token :=
  [⟨.dot, "", part.dot_gap⟩, ⟨.ident, part.ident, part.gap⟩]

end DomainPart

namespace DomainName

def parts_text : List DomainPart → String
  | [] => ""
  | part :: parts => part.text ++ parts_text parts

def text (name : DomainName) : Identifier := name.first ++ parts_text name.parts

def tokens (name : DomainName) : List Token :=
  .ident name.first :: name.parts.flatMap DomainPart.tokens

structure WellFormed (name : DomainName) : Prop where
  first : is_reserved_keyword name.first = false
  parts : ∀ part ∈ name.parts, is_reserved_keyword part.ident = false
  line  : '\n' ∉ name.text.toList
  text  : is_reserved_keyword name.text = false

end DomainName

namespace ImportItem

def tokens (item : ImportItem) : List Token :=
  .ident item.name :: (item.alias.elim [] fun «alias» => [.ident "as", .ident «alias»])

structure WellFormed (item : ImportItem) : Prop where
  name    : is_reserved_keyword item.name = false
  «alias» : ∀ ident ∈ item.alias, is_reserved_keyword ident = false

end ImportItem

namespace ImportSource

def module_name : ImportSource → DomainName
  | module name _ | symbol name _ | symbols name _ | star name => name

def items : ImportSource → List ImportItem
  | module .. | star _ => []
  | symbol _ item => [item]
  | symbols _ items => items

def tokens : ImportSource → List Token
  | module name none => .ident "import" :: (name.tokens ++ [.of .semiColon])
  | module name (some «alias») =>
    .ident "import" :: (name.tokens ++ [.ident "as", .ident «alias», .of .semiColon])
  | symbol name item =>
    .ident "import" :: (name.tokens ++ .of .colonColon :: (item.tokens ++ [.of .semiColon]))
  | symbols name items =>
    .ident "import" :: (name.tokens ++ .of .colonColon :: .of .openCurly ::
      (comma_separated (items.map ImportItem.tokens) ++ [.of .closeCurly, .of .semiColon]))
  | star name =>
    .ident "import" :: (name.tokens ++ [.of .colonColon, .of .star, .of .semiColon])

structure WellFormed (source : ImportSource) : Prop where
  name    : source.module_name.WellFormed
  items   : ∀ item ∈ source.items, item.WellFormed
  «alias» : ∀ name ident, source = .module name (some ident) → is_reserved_keyword ident = false

end ImportSource

def DefinitionVariant.keyword : DefinitionVariant → Identifier
  | .struct => "struct"
  | .enum => "enum"
  | .union => "union"
  | .function => "func"
  | .primitive => "primitive"
  | .composite => "composite"

namespace RangeSource

def poly_var_tokens : List Identifier → List Token
  | [] => []
  | poly_vars => .of .openAngle ::
      (comma_separated (poly_vars.map fun poly_var => [.ident poly_var]) ++ [.of .closeAngle])

def range : RangeSource → ModuleRange
  | module name => ⟨.pragma, ⟨.pragma, "#module", ""⟩ :: name.tokens⟩
  | version number =>
    ⟨.pragma, [⟨.pragma, "#version", ""⟩, ⟨.integer, toString number.toNat, ""⟩]⟩
  | .import source => ⟨.import, source.tokens⟩
  | definition variant name poly_vars body =>
    ⟨.definition, .ident variant.keyword :: .ident name :: (poly_var_tokens poly_vars ++ body)⟩
  | code tokens => ⟨.code, tokens⟩

def module_name? : RangeSource → Option Identifier
  | module name => some name.text
  | _ => none

def version? : RangeSource → Option (BitVec 64)
  | version number => some number
  | _ => none

def defined_name? : RangeSource → Option Identifier
  | definition _ name _ _ => some name
  | _ => none

def WellFormed : RangeSource → Prop
  | module name => name.WellFormed
  | version _ => True
  | .import source => source.WellFormed
  | definition _ name poly_vars body =>
    is_reserved_keyword name = false ∧ (∀ poly_var ∈ poly_vars, is_reserved_keyword poly_var = false) ∧
      (poly_vars = [] → TokenIter.next body ≠ some .openAngle)
  | code _ => True

end RangeSource

namespace ModuleSource

variable (m : ModuleSource)

def module_names : List Identifier := m.filterMap RangeSource.module_name?

def versions : List (BitVec 64) := m.filterMap RangeSource.version?

def defined_names : List Identifier := m.filterMap RangeSource.defined_name?

def module_name : Option Identifier := (module_names m).head?

-- There is something to be walked through, and no pragma is given twice.
structure WellFormed : Prop where
  ranges   : ∀ range ∈ m, range.WellFormed
  nonempty : m ≠ []
  module   : (module_names m).length ≤ 1
  version  : (versions m).length ≤ 1

end ModuleSource

theorem consume_domain_parts_tokens (rest : TokenIter) (hr : rest.next ≠ some .dot) :
    (parts : List DomainPart) → (∀ part ∈ parts, is_reserved_keyword part.ident = false) →
    consume_domain_parts (parts.flatMap DomainPart.tokens ++ rest) =
      .ok (DomainName.parts_text parts, rest)
  | [], _ => by
    match rest, hr with
    | [], _ => rfl
    | [token], hr | token :: _ :: _, hr =>
      have hr : token.kind ≠ .dot := fun he => hr (by simp [he])
      simp [consume_domain_parts, hr, DomainName.parts_text]
  | part :: parts, h => by
    obtain ⟨hp, h⟩ := List.forall_mem_cons.mp h
    have ih := consume_domain_parts_tokens rest hr parts h
    simp only [List.flatMap_cons, DomainPart.tokens, List.cons_append, List.nil_append,
      consume_domain_parts, if_true]
    rw [ih]
    simp [consume_ident, consume_any_ident, peek_ident, bind, Except.bind, hp,
      DomainName.parts_text, DomainPart.text, String.append_assoc]

theorem consume_domain_ident_tokens {name : DomainName} (h : name.WellFormed) {rest : TokenIter}
    (hr : rest.next ≠ some .dot) :
    consume_domain_ident (name.tokens ++ rest) = .ok (name.text, rest) := by
  have hp := consume_domain_parts_tokens rest hr name.parts h.parts
  have hl := h.line
  have ht := h.text
  unfold DomainName.text at hl ht
  simp only [consume_domain_ident, DomainName.tokens, List.cons_append,
    consume_ident_ident h.first, bind, Except.bind, hp, hl, ht, if_false, DomainName.text,
    Bool.false_eq_true]

-- What an item of an import is found to stand for.
def find_item (ctx : PassCtx) (module_name : Identifier) (module_root_id : RootId)
    (item : ImportItem) : Except Failure (AliasedSymbol × SymbolDefinition) :=
  match ctx.symbols.get_symbol_by_name_defined_in_scope (.module module_root_id) item.name with
  | none =>
    .error (.parseError ("could not find symbol '" ++ item.name ++ "' within module '" ++
      module_name ++ "'"))
  | some target =>
    match target.variant with
    | .module .. => .error .panic
    | .definition definition => .ok (⟨item.name, item.alias, definition.definition_id⟩, definition)

theorem consume_item_tokens (ctx : PassCtx) (module_name : Identifier) (module_root_id : RootId) {item : ImportItem}
    (h : item.WellFormed) {rest : TokenIter} (hr : rest.next ≠ some .ident) :
    PassImport.consume_symbol_and_maybe_alias ctx module_name module_root_id (item.tokens ++ rest) =
      find_item ctx module_name module_root_id item >>= fun found => .ok (found, rest) := by
  have hp : has_ident rest "as" = false := by
    cases rest
    case nil => rfl
    case cons token rest =>
      have hr : token.kind ≠ .ident := fun he => hr (by simp [he])
      simp [has_ident, peek_ident, hr]
  unfold PassImport.consume_symbol_and_maybe_alias find_item
  obtain ⟨name, «alias»⟩ := item
  cases «alias»
  case none =>
    simp only [ImportItem.tokens, Option.elim_none, List.cons_append, List.nil_append,
      consume_ident_ident h.name, bind, Except.bind, hp, if_false, Bool.false_eq_true]
    generalize ctx.symbols.get_symbol_by_name_defined_in_scope _ name = target
    obtain _ | ⟨_, _ | _⟩ := target <;> rfl
  case some ident =>
    have ha : has_ident (.ident "as" :: .ident ident :: rest) "as" = true := by
      simp [has_ident]
    simp only [ImportItem.tokens, Option.elim_some, List.cons_append, List.nil_append,
      consume_ident_ident h.name, bind, Except.bind, ha, if_true, TokenIter.consume_cons,
      consume_ident_ident (h.alias ident rfl)]
    generalize ctx.symbols.get_symbol_by_name_defined_in_scope _ name = target
    obtain _ | ⟨_, _ | _⟩ := target <;> rfl

theorem consume_items_tokens (ctx : PassCtx) (module_name : Identifier) (module_root_id : RootId)
    {items : List ImportItem} (h : ∀ item ∈ items, item.WellFormed) (rest : TokenIter) :
    consume_comma_separated .openCurly .closeCurly
        (PassImport.consume_symbol_and_maybe_alias ctx module_name module_root_id) "a symbol"
        "a list of symbols to import"
        (.of .openCurly :: (comma_separated (items.map ImportItem.tokens) ++ .of .closeCurly :: rest)) =
      items.mapM (find_item ctx module_name module_root_id) >>= fun found => .ok (found, rest) := by
  let read := items.map fun item => (item.tokens, find_item ctx module_name module_root_id item)
  have hread : read.map Prod.fst = items.map ImportItem.tokens := by
    simp [read, List.map_map, Function.comp_def]
  have hitems : ∀ item ∈ read, ReadsItem
      (PassImport.consume_symbol_and_maybe_alias ctx module_name module_root_id) .closeCurly
      ((comma_separated (read.map Prod.fst) ++ .of .closeCurly :: rest).length + 1) item := by
    intro item hi
    obtain ⟨item, hm, he⟩ := List.mem_map.mp hi
    subst he
    refine ⟨fun rest => by simp [ImportItem.tokens], fun rest hrest _ => ?_⟩
    refine consume_item_tokens ctx module_name module_root_id (h item hm) ?_
    cases hrest with
    | inl hrest | inr hrest => simp [hrest]
  have hm : read.mapM Prod.snd = items.mapM (find_item ctx module_name module_root_id) := by
    simp [read, List.mapM_map, Function.comp_def]
  rw [← hread, ← hm]
  exact consume_comma_separated_items (by simp) "a symbol" "a list of symbols to import" hitems
    (Nat.lt_succ_self _)

theorem maybe_consume_poly_vars {poly_vars : List Identifier}
    (h : ∀ poly_var ∈ poly_vars, is_reserved_keyword poly_var = false) (body : TokenIter)
    (hb : poly_vars = [] → body.next ≠ some .openAngle) :
    maybe_consume_comma_separated .openAngle .closeAngle consume_ident "a polymorphic variable"
      (RangeSource.poly_var_tokens poly_vars ++ body) = .ok (poly_vars, body) := by
  match poly_vars, hb with
  | [], hb => simp [RangeSource.poly_var_tokens, maybe_consume_comma_separated, hb rfl]
  | poly_var :: poly_vars, _ =>
    let read : List (List Token × Except Failure Identifier) :=
      (poly_var :: poly_vars).map fun poly_var => ([.ident poly_var], .ok poly_var)
    have hread : read.map Prod.fst = (poly_var :: poly_vars).map fun poly_var => [.ident poly_var] := by
      simp [read, Function.comp_def]
    have hitems : ∀ item ∈ read, ReadsItem consume_ident .closeAngle
        ((comma_separated (read.map Prod.fst) ++ .of .closeAngle :: body).length + 1) item := by
      intro item hi
      obtain ⟨poly_var, hm, he⟩ := List.mem_map.mp hi
      subst he
      exact ⟨fun rest => by simp, fun rest _ _ => consume_ident_ident (h poly_var hm) rest⟩
    have hm : read.mapM Prod.snd = .ok (poly_var :: poly_vars) := by
      have : (poly_var :: poly_vars).mapM (Except.ok : Identifier → Except Failure Identifier) =
          .ok ((poly_var :: poly_vars).map id) := List.mapM_pure (f := id)
      simpa [read, List.mapM_map, Function.comp_def] using this
    have hlist : consume_comma_separated .openAngle .closeAngle consume_ident
        "a polymorphic variable" "" (.of .openAngle ::
          (comma_separated (read.map Prod.fst) ++ .of .closeAngle :: body)) =
        read.mapM Prod.snd >>= fun values => .ok (values, body) :=
      consume_comma_separated_items (by simp) "a polymorphic variable" "" hitems (Nat.lt_succ_self _)
    rw [hm, hread] at hlist
    simpa [consume_comma_separated, maybe_consume_comma_separated, RangeSource.poly_var_tokens,
      bind, Except.bind] using hlist

end Reowolf.Parser
