import Reowolf.Parser.ParserType
import Mathlib.Logic.Relation
import Mathlib.Data.List.Infix

namespace Reowolf.Parser

-- The names that resolve to the root of a type: a keyword, a polymorphic variable, a definition that
-- is visible where the type stands, or one of a module that is.
inductive Spells (ctx : TypeCtx) : ParserTypeVariant → List Identifier → Prop
  | builtin {text variant} :
    builtin_types.lookup text = some variant → variant ≠ .inferred → Spells ctx variant [text]
  | polymorphicArgument {text idx} :
    builtin_types.lookup text = none → seek_poly_var ctx.poly_vars text = some idx →
    Spells ctx (.polymorphicArgument ctx.wrapping_definition idx) [text]
  | definition {text name definition} :
    builtin_types.lookup text = none → seek_poly_var ctx.poly_vars text = none →
    ctx.symbols.get_symbol_by_name ctx.cur_scope text = some ⟨name, .definition definition⟩ →
    Spells ctx (.definition definition.definition_id (ctx.num_poly_vars definition.definition_id))
      [text]
  | qualified {module_alias name root_id import_id text name' definition} :
    builtin_types.lookup module_alias = none → seek_poly_var ctx.poly_vars module_alias = none →
    ctx.symbols.get_symbol_by_name ctx.cur_scope module_alias = some ⟨name, .module root_id import_id⟩ →
    ctx.symbols.get_symbol_by_name_defined_in_scope (.module root_id) text =
      some ⟨name', .definition definition⟩ →
    Spells ctx (.definition definition.definition_id (ctx.num_poly_vars definition.definition_id))
      [module_alias, text]

inductive TypeTree
  | node (root : ParserTypeVariant) (args : List TypeTree)
  | array (element : TypeTree)

-- Every root is spelled by its path and has the right number of arguments.
inductive TypeTree.WellFormed (ctx : TypeCtx) (path : ParserTypeVariant → List Identifier) :
    TypeTree → Prop
  | node {root args} :
    Spells ctx root (path root) → args.length = root.num_embedded →
    (∀ arg ∈ args, arg.WellFormed ctx path) → WellFormed ctx path (.node root args)
  | array {element} : element.WellFormed ctx path → WellFormed ctx path (.array element)

def path_tokens (path : List Identifier) : List Token :=
  (path.map Token.ident).intersperse (.of .colonColon)

-- The element that a spelled root is read as.
def spelled (path : ParserTypeVariant → List Identifier) (root : ParserTypeVariant) :
    ParserTypeElement :=
  ⟨root, "::".intercalate (path root)⟩

namespace TypeTree

mutual

-- The type tree in prefix order.
def prefix_order : TypeTree → List ParserTypeVariant
  | node root args => root :: prefix_orders args
  | array element  => .array :: element.prefix_order

def prefix_orders : List TypeTree → List ParserTypeVariant
  | [] => []
  | arg :: args => arg.prefix_order ++ prefix_orders args

end

section

variable (path : ParserTypeVariant → List Identifier)

mutual

def print : TypeTree → List Token
  | node root [] => path_tokens (path root)
  | node root (arg :: args) =>
    path_tokens (path root) ++ .of .openAngle :: (arg.print ++ print_arguments args)
  | array element => element.print ++ [.of .openSquare, .of .closeSquare]

-- What comes after the first argument.
def print_arguments : List TypeTree → List Token
  | [] => [.of .closeAngle]
  | arg :: args => .of .comma :: (arg.print ++ print_arguments args)

end

mutual

-- The entries that the parser makes for a type at a depth of angle braces and arrays.
def entries (depth : Int) : TypeTree → List Entry
  | node root args => ⟨spelled path root, depth⟩ :: argument_entries (depth + 1) args
  | array element  => ⟨⟨.array, "[]"⟩, depth⟩ :: element.entries (depth + 1)

def argument_entries (depth : Int) : List TypeTree → List Entry
  | [] => []
  | arg :: args => arg.entries depth ++ argument_entries depth args

end

end

-- Whether polymorphic arguments are written out at the root, under its array suffixes.
def is_explicit : TypeTree → Bool
  | node _ args   => !args.isEmpty
  | array element => element.is_explicit

def is_array : TypeTree → Bool
  | node .. => false
  | array _ => true

end TypeTree

-- The tokenizer makes one token of two closing angle braces in a row, from the left to the right.
def glue_angles : List Token → List Token
  | a :: b :: tokens =>
    if a.kind = .closeAngle ∧ b.kind = .closeAngle then
      .of .shiftRight :: glue_angles tokens
    else
      a :: glue_angles (b :: tokens)
  | tokens => tokens

-- Some pairs of closing angle braces in a row are one token.
inductive Glued : List Token → List Token → Prop
  | nil : Glued [] []
  | keep {tokens glued} (token) : Glued tokens glued → Glued (token :: tokens) (token :: glued)
  | glue {a b tokens glued} :
    a.kind = .closeAngle → b.kind = .closeAngle → Glued tokens glued →
    Glued (a :: b :: tokens) (.of .shiftRight :: glued)

theorem glued_glue_angles : (tokens : List Token) → Glued tokens (glue_angles tokens)
  | [] => .nil
  | [token] => .keep token .nil
  | a :: b :: tokens => by
    simp only [glue_angles]
    split
    case isTrue h => exact .glue h.1 h.2 (glued_glue_angles tokens)
    case isFalse => exact .keep a (glued_glue_angles (b :: tokens))

-- Tokens without closing angle braces are kept.
theorem Glued.of_append {pre tokens glued} (h : Glued (pre ++ tokens) glued)
    (hp : ∀ token ∈ pre, token.kind ≠ .closeAngle) :
    ∃ glued', glued = pre ++ glued' ∧ Glued tokens glued' := by
  induction pre generalizing glued
  case nil => exact ⟨glued, rfl, h⟩
  case cons token pre ih =>
    obtain ⟨hk, hp⟩ := List.forall_mem_cons.mp hp
    generalize he : token :: pre ++ tokens = all at h
    cases h
    case nil => cases he
    case keep h =>
      cases he
      obtain ⟨glued', he, h⟩ := ih h hp
      exact ⟨glued', congrArg _ he, h⟩
    case glue ha _ _ => exact absurd ((List.cons.inj he).1 ▸ ha) hk

theorem glue_angles_append {token : Token} (h : token.kind ≠ .closeAngle) (rest : List Token) :
    (tokens : List Token) → glue_angles (tokens ++ token :: rest) =
      glue_angles tokens ++ glue_angles (token :: rest)
  | [] => rfl
  | [a] => by simp [glue_angles, h]
  | a :: b :: tokens => by
    have ih := glue_angles_append h rest tokens
    have ih' := glue_angles_append h rest (b :: tokens)
    simp only [List.cons_append] at ih'
    simp only [List.cons_append, glue_angles]
    split
    · rw [ih, List.cons_append]
    · rw [ih', List.cons_append]

end Reowolf.Parser
