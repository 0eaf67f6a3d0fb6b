import Reowolf.Types.ConcreteConversion
import Reowolf.Types.EqualityConstraints
import Reowolf.Types.TypeTable

namespace Reowolf.Types

open Reowolf.Parser (ParserTypeVariant)
open InferenceType

-- The places at which the inference of polymorphic types holds that it cannot come, and any other
-- place at which it may panic.
inductive TypingPanic
  -- "made progress on signature type, but it doesn't have a marker"
  | signature_without_marker
  -- "no failure when applying polyvar constraints"
  | polyvar_constraint
  -- "encountered failure while reapplying modified signature to expression after polyvar inference"
  | signature_reapplication
  -- "construct_poly_arg_error without actual error found?"
  | no_poly_arg_error
  | other
deriving DecidableEq

inductive TypingStop
  | parse_error (error : ParseError)
  | panic (place : TypingPanic)
deriving DecidableEq

-- An index out of range, a malformed type or another failed assertion.
def or_panic {α : Type} : Option α → Except TypingStop α
  | some a => .ok a
  | none   => .error (.panic .other)

namespace InferenceType

-- The name of the type at the index, and the index of its last part. All types that are displayed have
-- all of their parts, so the bound is not reached.
def write_display_name (heap : Heap) (parts : List InferenceTypePart) :
    (fuel : Nat) → (idx : Nat) → String × Nat
  | 0, idx => ("", idx)
  | fuel + 1, idx =>
    let (sub, sub_idx) := write_display_name heap parts fuel (idx + 1)
    match parts[idx]? with
    | none => ("", idx)
    | some (.marker _) => (sub, sub_idx)
    | some .unknown => ("?", idx)
    | some .numberLike => ("numberlike", idx)
    | some .integerLike => ("integerlike", idx)
    | some .arrayLike => (sub ++ "[?]", sub_idx)
    | some .portLike => ("portlike<" ++ sub ++ ">", sub_idx)
    | some .void => ("void", idx)
    | some .bool => ("bool", idx)
    | some .uint8 => ("u8", idx)
    | some .uint16 => ("u16", idx)
    | some .uint32 => ("u32", idx)
    | some .uint64 => ("u64", idx)
    | some .sint8 => ("s8", idx)
    | some .sint16 => ("s16", idx)
    | some .sint32 => ("s32", idx)
    | some .sint64 => ("s64", idx)
    | some .character => ("char", idx)
    -- skip the 'char' subtype
    | some .string => ("string", idx + 1)
    | some .message => ("msg<" ++ sub ++ ">", sub_idx)
    | some .array => (sub ++ "[]", sub_idx)
    | some .slice => (sub ++ "[..]", sub_idx)
    | some .input => ("in<" ++ sub ++ ">", sub_idx)
    | some .output => ("out<" ++ sub ++ ">", sub_idx)
    | some (.«instance» definition_id num_sub) =>
      if num_sub > 0 then
        let (subs, sub_idx) := (List.range (num_sub - 1)).foldl
          (fun (subs, idx) _ =>
            let (sub, idx) := write_display_name heap parts fuel (idx + 1)
            (subs ++ ", " ++ sub, idx))
          (sub, sub_idx)
        (heap.identifier definition_id ++ "<" ++ subs ++ ">", sub_idx)
      else
        (heap.identifier definition_id, idx)

def partial_display_name (heap : Heap) (parts : List InferenceTypePart) : String :=
  (write_display_name heap parts parts.length 0).fst

def display_name (heap : Heap) (t : InferenceType) : String :=
  partial_display_name heap t.parts

-- The loop of the iterator, from the index on. There is no result if a subtree has no end.
def markers_from (parts : List InferenceTypePart) :
    (fuel : Nat) → (idx : Nat) → Option (List (Nat × List InferenceTypePart))
  | 0, _ => none
  | fuel + 1, idx =>
    match parts[idx]? with
    | none => some []
    | some (.marker marker) => do
      let start_idx := idx + 1
      let end_idx ← find_subtree_end_idx parts start_idx
      let rest ← markers_from parts fuel end_idx
      return (marker, (parts.take end_idx).drop start_idx) :: rest
    | some _ => markers_from parts fuel (idx + 1)

-- All markers and the type trees that follow them.
def marker_iter (t : InferenceType) : Option (List (Nat × List InferenceTypePart)) :=
  markers_from t.parts (t.parts.length + 1) 0

def seek_marker : (start_idx : Nat) → List InferenceTypePart → Option (Nat × Nat)
  | _, [] => none
  | start_idx, .marker marker :: _ => some (marker, start_idx + 1)
  | start_idx, _ :: parts => seek_marker (start_idx + 1) parts

-- The first marker from the index on, and the index behind it.
def find_marker (t : InferenceType) (start_idx : Nat) : Option (Nat × Nat) :=
  seek_marker start_idx (t.parts.drop start_idx)

end InferenceType

-- The parts that an element adds to a type, and whether there is something to infer or a marker.
structure InferredElements where
  parts        : List InferenceTypePart
  has_inferred : Bool
  has_markers  : Bool

-- The polymorphic variables of the procedure that is typed are known. Those of another definition
-- are to be inferred, and marked.
def determine_element (poly_vars : List ConcreteType) (use_definitions_known_poly_args : Bool) :
    ParserTypeVariant → Option InferredElements
  | .void => some ⟨[.void], false, false⟩
  | .inputOrOutput => some ⟨[.portLike], true, false⟩
  | .arrayLike => some ⟨[.arrayLike], true, false⟩
  | .integerLike => some ⟨[.integerLike], true, false⟩
  | .message => some ⟨[.message, .uint8], false, false⟩
  | .bool => some ⟨[.bool], false, false⟩
  | .uint8 => some ⟨[.uint8], false, false⟩
  | .uint16 => some ⟨[.uint16], false, false⟩
  | .uint32 => some ⟨[.uint32], false, false⟩
  | .uint64 => some ⟨[.uint64], false, false⟩
  | .sint8 => some ⟨[.sint8], false, false⟩
  | .sint16 => some ⟨[.sint16], false, false⟩
  | .sint32 => some ⟨[.sint32], false, false⟩
  | .sint64 => some ⟨[.sint64], false, false⟩
  | .character => some ⟨[.character], false, false⟩
  | .string => some ⟨[.string, .character], false, false⟩
  | .integerLiteral => none
  | .inferred => some ⟨[.unknown], true, false⟩
  | .array => some ⟨[.array], false, false⟩
  | .input => some ⟨[.input], false, false⟩
  | .output => some ⟨[.output], false, false⟩
  | .polymorphicArgument _ poly_arg_idx =>
    if use_definitions_known_poly_args then do
      let concrete_type ← poly_vars[poly_arg_idx]?
      let parts ← determine_inference_type_from_concrete_type concrete_type
      return ⟨parts, false, false⟩
    else
      some ⟨[.marker poly_arg_idx, .unknown], true, true⟩
  | .definition definition_id num_embedded =>
    some ⟨[.«instance» definition_id num_embedded], false, false⟩

def determine_elements (poly_vars : List ConcreteType) (use_definitions_known_poly_args : Bool) :
    ParserType → Option InferredElements
  | [] => some ⟨[], false, false⟩
  | element :: elements => do
    let first ← determine_element poly_vars use_definitions_known_poly_args element
    let rest ← determine_elements poly_vars use_definitions_known_poly_args elements
    return ⟨first.parts ++ rest.parts, first.has_inferred || rest.has_inferred,
      first.has_markers || rest.has_markers⟩

def determine_inference_type_from_parser_type_elements (poly_vars : List ConcreteType)
    (elements : ParserType) (use_definitions_known_poly_args : Bool) : Option InferenceType := do
  let determined ← determine_elements poly_vars use_definitions_known_poly_args elements
  return ⟨determined.has_markers, !determined.has_inferred, determined.parts⟩

-- What is inferred of the polymorphic variables of a call, a literal or a selection, and of the types
-- in its signature.
structure ExtraData where
  expr_id       : Nat
  definition_id : DefinitionId
  poly_vars     : List InferenceType
  embedded      : List InferenceType
  returned      : InferenceType

-- The expressions that have extra data, with the unique ids of the expressions in them. The polymorphic
-- arguments are those of the type that the expression names. A field in a struct literal has the
-- index that it has in the definition.
inductive PolymorphicExpression
  | call (definition : DefinitionId) (poly_args : List ParserType) (arguments : List Nat)
  | struct_literal (definition : DefinitionId) (poly_args : List ParserType)
      (fields : List (Nat × Nat))
  | enum_literal (definition : DefinitionId) (poly_args : List ParserType)
  | union_literal (definition : DefinitionId) (poly_args : List ParserType) (variant_idx : Nat)
      (values : List Nat)
  | select (subject : Nat) (field_name : Identifier)

namespace PolymorphicExpression

-- The expressions whose types the signature has, in front of the type of the whole.
def expr_args : PolymorphicExpression → List Nat
  | call _ _ arguments => arguments
  | struct_literal _ _ fields => fields.map Prod.snd
  | enum_literal _ _ => []
  | union_literal _ _ _ values => values
  | select subject _ => [subject]

def poly_args : PolymorphicExpression → List ParserType
  | call _ poly_args _ | struct_literal _ poly_args _ | enum_literal _ poly_args
  | union_literal _ poly_args _ _ => poly_args
  | select _ _ => []

def is_select : PolymorphicExpression → Bool
  | select _ _ => true
  | _ => false

def expr_return_name : PolymorphicExpression → String
  | call .. => "return type"
  | select .. => "selected field"
  | _ => "literal"

end PolymorphicExpression

section InitialData

variable (heap : Heap) (poly_vars : List ConcreteType) (expr_id : Nat)

def insert_initial_call_polymorph_data (definition_id : DefinitionId) (poly_args : List ParserType) :
    Option ExtraData := do
  let poly_args ← poly_args.mapM
    (determine_inference_type_from_parser_type_elements poly_vars · true)
  let definition ← heap.definitions[definition_id]?
  let (parameters, returned) ← match definition.variant with
    | .component parameters => some (parameters, none)
    | .function return_types parameters _ => some (parameters, some return_types)
    | _ => none
  if poly_args.length ≠ definition.poly_vars.length then none
  let parameter_types ← parameters.mapM fun parameter =>
    determine_inference_type_from_parser_type_elements poly_vars parameter.parser_type false
  let return_type ← match returned with
    | none => some ⟨false, true, [.void]⟩
    | some [returned] => determine_inference_type_from_parser_type_elements poly_vars returned false
    | some _ => none
  return ⟨expr_id, definition_id, poly_args, parameter_types, return_type⟩

-- The type of a literal: its definition, and each polymorphic argument with a marker.
def literal_type (definition_id : DefinitionId) (poly_args : List InferenceType) : InferenceType where
  has_marker := !poly_args.isEmpty
  is_done    := poly_args.all InferenceType.is_done
  parts      := .«instance» definition_id poly_args.length ::
    poly_args.zipIdx.flatMap fun (poly_var, idx) => .marker idx :: poly_var.parts

-- The fields have the order in which the literal has them.
def insert_initial_struct_polymorph_data (definition_id : DefinitionId) (poly_args : List ParserType)
    (fields : List (Nat × Nat)) : Option ExtraData := do
  let poly_args ← poly_args.mapM
    (determine_inference_type_from_parser_type_elements poly_vars · true)
  let definition ← heap.definitions[definition_id]?
  let def_fields ← match definition.variant with
    | .struct def_fields => some def_fields
    | _ => none
  if poly_args.length ≠ definition.poly_vars.length then none
  let embedded_types ← fields.mapM fun (field_idx, _) => do
    let def_field ← def_fields[field_idx]?
    determine_inference_type_from_parser_type_elements poly_vars def_field.parser_type false
  return ⟨expr_id, definition_id, poly_args, embedded_types, literal_type definition_id poly_args⟩

-- The linker has checked that there are as many arguments as the enum has.
def insert_initial_enum_polymorph_data (definition_id : DefinitionId) (poly_args : List ParserType) :
    Option ExtraData := do
  let poly_args ← poly_args.mapM
    (determine_inference_type_from_parser_type_elements poly_vars · true)
  return ⟨expr_id, definition_id, poly_args, [], literal_type definition_id poly_args⟩

def insert_initial_union_polymorph_data (definition_id : DefinitionId) (poly_args : List ParserType)
    (variant_idx : Nat) (values : List Nat) : Option ExtraData := do
  let poly_args ← poly_args.mapM
    (determine_inference_type_from_parser_type_elements poly_vars · true)
  let definition ← heap.definitions[definition_id]?
  let variants ← match definition.variant with
    | .union variants => some variants
    | _ => none
  if poly_args.length ≠ definition.poly_vars.length then none
  let variant_definition ← variants[variant_idx]?
  if variant_definition.value.length ≠ values.length then none
  let embedded ← variant_definition.value.mapM
    (determine_inference_type_from_parser_type_elements poly_vars · false)
  return ⟨expr_id, definition_id, poly_args, embedded, literal_type definition_id poly_args⟩

-- The variables of the struct have a marker themselves.
def insert_initial_select_polymorph_data (struct_def_id : DefinitionId) (field_idx : Nat) :
    Option ExtraData := do
  let definition ← heap.definitions[struct_def_id]?
  let fields ← match definition.variant with
    | .struct fields => some fields
    | _ => none
  let num_poly_vars := definition.poly_vars.length
  let field ← fields[field_idx]?
  let field_type ← determine_inference_type_from_parser_type_elements poly_vars field.parser_type false
  return {
    expr_id
    definition_id := struct_def_id
    poly_vars     := (List.range num_poly_vars).map fun poly_idx =>
      ⟨true, false, [.marker poly_idx, .unknown]⟩
    embedded      := [{
      has_marker := num_poly_vars ≠ 0
      is_done    := num_poly_vars = 0
      parts      := .«instance» struct_def_id num_poly_vars ::
        (List.range num_poly_vars).flatMap fun poly_idx => [.marker poly_idx, .unknown] }]
    returned      := field_type
  }

end InitialData

section PolyArgError

-- Two types for the same polymorphic variable.
structure PolyMismatch where
  poly_idx  : Nat
  section_a : List InferenceTypePart
  section_b : List InferenceTypePart

-- There is no result if the source panics.
def section_mismatch (poly_idx : Nat) (section_a section_b : List InferenceTypePart) :
    Option (Option PolyMismatch) := do
  let compatible ← check_subtrees section_a 0 section_b 0
  return if compatible then none else some ⟨poly_idx, section_a, section_b⟩

def has_poly_mismatch (type_a type_b : InferenceType) : Option (Option PolyMismatch) :=
  if !type_a.has_marker || !type_b.has_marker then
    some none
  else do
    let sections_a ← type_a.marker_iter
    let sections_b ← type_b.marker_iter
    sections_a.findSomeM? fun (marker_a, section_a) =>
      sections_b.findSomeM? fun (marker_b, section_b) =>
        if marker_a = marker_b then section_mismatch marker_a section_a section_b else some none

def has_explicit_poly_mismatch (poly_vars : List InferenceType) (arg : InferenceType) :
    Option (Option PolyMismatch) := do
  let sections ← arg.marker_iter
  sections.findSomeM? fun (marker, arg_section) => do
    let poly_var ← poly_vars[marker]?
    section_mismatch marker poly_var.parts arg_section

variable (heap : Heap) (expr : PolymorphicExpression) (poly_data : ExtraData)

def construct_main_error (poly_var_idx : Nat) : Option String := do
  let definition ← heap.definitions[poly_data.definition_id]?
  let poly_var ← definition.poly_vars[poly_var_idx]?
  let conflict := "Conflicting type for polymorphic variable '" ++ poly_var ++ "' "
  return match expr with
    | .call .. => conflict ++ "of '" ++ definition.identifier ++ "'"
    | .select _ field_name =>
      conflict ++ "while accessing field '" ++ field_name ++ "' of '" ++ definition.identifier ++ "'"
    | _ => conflict ++ "of instantiation of '" ++ definition.identifier ++ "'"

-- The error for a mismatch, if there is one. Its infos display the two types.
def mismatch_error (mismatch : Option (Option PolyMismatch)) (infos : (a b : String) → List String) :
    Option (Option ParseError) := do
  match ← mismatch with
  | none => return none
  | some mismatch =>
    let main ← construct_main_error heap expr poly_data mismatch.poly_idx
    return some ⟨main :: infos (partial_display_name heap mismatch.section_a)
      (partial_display_name heap mismatch.section_b)⟩

-- What is checked, one after the other: the return type with itself, the arguments with each other
-- and with the return type, and all of them with the polymorphic variables.
def poly_arg_checks : List (Option (Option ParseError)) :=
  let error := mismatch_error heap expr poly_data
  let name := expr.expr_return_name
  [error (has_poly_mismatch poly_data.returned poly_data.returned) fun a b =>
    ["The " ++ name ++ " inferred the conflicting types '" ++ a ++ "' and '" ++ b ++ "'"]] ++
  (poly_data.embedded.zipIdx.flatMap fun (arg_a, arg_a_idx) =>
    ((poly_data.embedded.take (arg_a_idx + 1)).zipIdx.map fun (arg_b, arg_b_idx) =>
      error (has_poly_mismatch arg_a arg_b) fun a b =>
        if arg_a_idx = arg_b_idx then
          ["This argument inferred the conflicting types '" ++ a ++ "' and '" ++ b ++ "'"]
        else
          ["This argument inferred it to '" ++ a ++ "'",
            "While this argument inferred it to '" ++ b ++ "'"]) ++
    [error (has_poly_mismatch arg_a poly_data.returned) fun a b =>
      ["This argument inferred it to '" ++ a ++ "'",
        "While the " ++ name ++ " inferred it to '" ++ b ++ "'"]]) ++
  (poly_data.embedded.map fun arg =>
    error (has_explicit_poly_mismatch poly_data.poly_vars arg) fun a b =>
      ["The polymorphic variable has type '" ++ a ++ "' (which might have been partially inferred) " ++
        "while the argument inferred it to '" ++ b ++ "'"]) ++
  [error (has_explicit_poly_mismatch poly_data.poly_vars poly_data.returned) fun a b =>
    ["The polymorphic variable has type '" ++ a ++ "' (which might have been partially inferred) " ++
      "while the " ++ name ++ " inferred it to '" ++ b ++ "'"]]

def construct_poly_arg_error : TypingStop :=
  match (poly_arg_checks heap expr poly_data).findSomeM? id with
  | some (some error) => .parse_error error
  | some none => .panic .no_poly_arg_error
  | none => .panic .other

end PolyArgError

-- The type after it, and whether it has progressed.
def apply_template_constraint_to_types (to_infer : InferenceType) (to_infer_start_idx : Nat)
    (template : List InferenceTypePart) (template_start_idx : Nat) :
    Option (Except Unit Bool × InferenceType) := do
  let (res, to_infer) ←
    infer_subtree_for_single_type to_infer to_infer_start_idx template template_start_idx false
  return match res with
    | .modified     => (.ok true, to_infer)
    | .unmodified   => (.ok false, to_infer)
    | .incompatible => (.error (), to_infer)

-- A type in the signature of an expression.
inductive SignatureIdx
  | embedded (idx : Nat)
  | returned
deriving DecidableEq

namespace ExtraData

def signature_type (data : ExtraData) : SignatureIdx → Option InferenceType
  | .embedded idx => data.embedded[idx]?
  | .returned => some data.returned

def set_signature_type (data : ExtraData) (idx : SignatureIdx) (type : InferenceType) : ExtraData :=
  match idx with
  | .embedded idx => { data with embedded := data.embedded.set idx type }
  | .returned => { data with returned := type }

end ExtraData

section Constraints

variable (heap : Heap) (expr : PolymorphicExpression)

-- The loop over the markers in the signature type. The set of the variables that have progressed is
-- only printed.
def apply_sections : List (Nat × List InferenceTypePart) → ExtraData → Except TypingStop ExtraData
  | [], polymorph_data => .ok polymorph_data
  | (poly_idx, poly_section) :: sections, polymorph_data => do
    let polymorph_type ← or_panic polymorph_data.poly_vars[poly_idx]?
    let (res, polymorph_type) ←
      or_panic (apply_template_constraint_to_types polymorph_type 0 poly_section 0)
    let polymorph_data :=
      { polymorph_data with poly_vars := polymorph_data.poly_vars.set poly_idx polymorph_type }
    match res with
    | .ok _ => apply_sections sections polymorph_data
    | .error () => .error (construct_poly_arg_error heap expr polymorph_data)

-- The data and the type of the expression after it, and which of the two types have progressed.
def apply_equal2_signature_constraint (polymorph_data : ExtraData) (idx : SignatureIdx)
    (signature_start_idx : Nat) (expression_type : InferenceType) (expression_start_idx : Nat) :
    Except TypingStop (ExtraData × InferenceType × Bool × Bool) := do
  let signature_type ← or_panic (polymorph_data.signature_type idx)
  let (infer_res, signature_type, expression_type) ← or_panic (infer_subtrees_for_both_types
    signature_type signature_start_idx expression_type expression_start_idx)
  if infer_res = .incompatible then
    let span_name := match idx with
      | .embedded _ => "argument's"
      | .returned => "type's"
    .error (.parse_error ⟨["failed to fully resolve the types of this expression",
      "because the " ++ span_name ++ " signature has been resolved to '" ++
        signature_type.display_name heap ++ "', but the expression has been resolved to '" ++
        expression_type.display_name heap ++ "'"]⟩)
  else
    let progress_sig := infer_res.modified_lhs
    let progress_expr := infer_res.modified_rhs
    let polymorph_data := polymorph_data.set_signature_type idx signature_type
    if progress_sig then
      if !signature_type.has_marker then
        .error (.panic .signature_without_marker)
      else
        let sections ← or_panic signature_type.marker_iter
        let polymorph_data ← apply_sections heap expr sections polymorph_data
        .ok (polymorph_data, expression_type, progress_sig, progress_expr)
    else
      .ok (polymorph_data, expression_type, progress_sig, progress_expr)

-- The loop of `apply_equal2_polyvar_constraint`. The end of the subtree is found before it changes.
def reapply_polyvars (poly_vars : List InferenceType) :
    (fuel : Nat) → (seek_idx : Nat) → (modified_sig : Bool) → InferenceType →
      Except TypingStop (Bool × InferenceType)
  | 0, _, _, _ => .error (.panic .other)
  | fuel + 1, seek_idx, modified_sig, signature_type =>
    match signature_type.find_marker seek_idx with
    | none => .ok (modified_sig, signature_type)
    | some (poly_idx, start_idx) => do
      let end_idx ← or_panic (find_subtree_end_idx signature_type.parts start_idx)
      let polymorph_type ← or_panic poly_vars[poly_idx]?
      let (res, signature_type) ← or_panic (apply_template_constraint_to_types
        signature_type start_idx polymorph_type.parts 0)
      match res with
      | .ok modified_at_marker =>
        reapply_polyvars poly_vars fuel end_idx (modified_sig || modified_at_marker) signature_type
      | .error () => .error (.panic .polyvar_constraint)

-- The types of the signature and of the expression after it, and whether the latter has progressed.
def apply_equal2_polyvar_constraint (poly_vars : List InferenceType)
    (signature_type expr_type : InferenceType) :
    Except TypingStop (InferenceType × InferenceType × Bool) := do
  let (modified_sig, signature_type) ←
    reapply_polyvars poly_vars (signature_type.parts.length + 1) 0 false signature_type
  if modified_sig then
    let (res, expr_type) ←
      or_panic (infer_subtree_for_single_type expr_type 0 signature_type.parts 0 true)
    match res with
    | .modified     => .ok (signature_type, expr_type, true)
    | .unmodified   => .ok (signature_type, expr_type, false)
    | .incompatible => .error (.panic .signature_reapplication)
  else
    .ok (signature_type, expr_type, false)

end Constraints

-- The procedure whose types are inferred: the polymorphic variables that it has been given, and its
-- expressions with those in which they are.
structure TypedBody where
  heap      : Heap
  poly_vars : List ConcreteType
  exprs     : Nat → Option PolymorphicExpression
  parent    : Nat → Option Nat

-- The extra data are those of the expressions, by their unique ids. A selection has none before its
-- field is known.
structure PassTyping where
  expr_types  : ExprTypes
  extra_data  : Nat → Option ExtraData
  expr_queued : List Nat

-- While an expression makes progress, its data are at hand.
structure PolyProgress where
  poly_data   : ExtraData
  expr_types  : ExprTypes
  expr_queued : List Nat

def push_back (expr_queued : List Nat) (expr_idx : Nat) : List Nat :=
  if expr_idx ∈ expr_queued then expr_queued else expr_queued ++ [expr_idx]

namespace TypedBody

variable (body : TypedBody)

-- An argument is queued itself, and for the whole its parent is.
def queue_progressed (idx : SignatureIdx) (expr_id : Nat) (expr_queued : List Nat) : List Nat :=
  match idx with
  | .embedded _ => push_back expr_queued expr_id
  | .returned => match body.parent expr_id with
    | some parent_id => push_back expr_queued parent_id
    | none => expr_queued

-- The mutual inference of the types of a signature and those of the expressions at these.
def infer_signatures (expr : PolymorphicExpression) :
    List (SignatureIdx × Nat) → PolyProgress → Except TypingStop PolyProgress
  | [], p => .ok p
  | (idx, expr_id) :: places, p => do
    let (poly_data, expr_type, _, progress) ← apply_equal2_signature_constraint body.heap expr
      p.poly_data idx 0 (p.expr_types expr_id) 0
    infer_signatures expr places {
      poly_data
      expr_types  := Function.update p.expr_types expr_id expr_type
      expr_queued := if progress then body.queue_progressed idx expr_id p.expr_queued else p.expr_queued
    }

-- The inference of these types from the polymorphic variables.
def reinfer_signatures :
    List (SignatureIdx × Nat) → PolyProgress → Except TypingStop PolyProgress
  | [], p => .ok p
  | (idx, expr_id) :: places, p => do
    let signature_type ← or_panic (p.poly_data.signature_type idx)
    let (signature_type, expr_type, progress) ← apply_equal2_polyvar_constraint p.poly_data.poly_vars
      signature_type (p.expr_types expr_id)
    reinfer_signatures places {
      poly_data   := p.poly_data.set_signature_type idx signature_type
      expr_types  := Function.update p.expr_types expr_id expr_type
      expr_queued := if progress then body.queue_progressed idx expr_id p.expr_queued else p.expr_queued
    }

-- All arguments, and then the type of the whole.
def places (expr_id : Nat) (arguments : List Nat) : List (SignatureIdx × Nat) :=
  (arguments.zipIdx.map fun (arg_id, arg_idx) => (.embedded arg_idx, arg_id)) ++ [(.returned, expr_id)]

-- What calls, literals and selections have in common.
def progress_signatures (expr_id : Nat) (expr : PolymorphicExpression) (poly_data : ExtraData)
    (s : PassTyping) : Except TypingStop PassTyping := do
  if poly_data.embedded.length ≠ expr.expr_args.length then
    .error (.panic .other)
  else
    let places := places expr_id expr.expr_args
    let p ← body.infer_signatures expr places ⟨poly_data, s.expr_types, s.expr_queued⟩
    let p ← body.reinfer_signatures places p
    .ok {
      expr_types  := p.expr_types
      extra_data  := Function.update s.extra_data expr_id (some p.poly_data)
      expr_queued := p.expr_queued
    }

def progress_call_expr (expr_id : Nat) (definition : DefinitionId) (poly_args : List ParserType)
    (arguments : List Nat) (s : PassTyping) : Except TypingStop PassTyping := do
  let poly_data ← or_panic (s.extra_data expr_id)
  body.progress_signatures expr_id (.call definition poly_args arguments) poly_data s

-- The literals of structs, enums and unions.
def progress_literal_expr (expr_id : Nat) (literal : PolymorphicExpression) (s : PassTyping) :
    Except TypingStop PassTyping := do
  let poly_data ← or_panic (s.extra_data expr_id)
  body.progress_signatures expr_id literal poly_data s

-- The first concrete part has to be the instance of a definition, if there is one.
def determine_inference_type_instance : List InferenceTypePart → Except Unit (Option DefinitionId)
  | [] => .ok none
  | part :: parts =>
    if part.is_marker || !part.is_concrete then
      determine_inference_type_instance parts
    else
      match part with
      | .«instance» definition_id _ => .ok (some definition_id)
      | _ => .error ()

-- The first time that the type of the subject is known, the field is looked up.
def progress_select_expr (expr_id subject : Nat) (field_name : Identifier) (s : PassTyping) :
    Except TypingStop PassTyping :=
  let expr := .select subject field_name
  match s.extra_data expr_id with
  | some poly_data => body.progress_signatures expr_id expr poly_data s
  | none =>
    let subject_type := s.expr_types subject
    let not_a_struct := TypingStop.parse_error
      ⟨["Can only apply field access to structs, got a subject of type '" ++
        subject_type.display_name body.heap ++ "'"]⟩
    match determine_inference_type_instance subject_type.parts with
    | .error () => .error not_a_struct
    | .ok none => .ok s
    | .ok (some struct_def_id) => do
      let definition ← or_panic body.heap.definitions[struct_def_id]?
      match definition.variant with
      | .struct fields =>
        match fields.findIdx? fun field => field.field = field_name with
        | none => .error (.parse_error ⟨["this field does not exist on the struct '" ++
            definition.identifier ++ "'"]⟩)
        | some field_idx =>
          let poly_data ← or_panic (insert_initial_select_polymorph_data body.heap body.poly_vars expr_id
            struct_def_id field_idx)
          body.progress_signatures expr_id expr poly_data s
      | _ => .error not_a_struct

-- The other expressions have no extra data. What they do to the types of expressions is left open.
def progress_expr (expr_id : Nat) (s : PassTyping) : Except TypingStop PassTyping :=
  match body.exprs expr_id with
  | some (.call definition poly_args arguments) =>
    body.progress_call_expr expr_id definition poly_args arguments s
  | some (.select subject field_name) => body.progress_select_expr expr_id subject field_name s
  | some literal => body.progress_literal_expr expr_id literal s
  | none => .ok s

-- The data with which the visit of an expression starts. Those of a selection come later.
def initial_polymorph_data (expr_id : Nat) : PolymorphicExpression → Option ExtraData
  | .call definition poly_args _ =>
    insert_initial_call_polymorph_data body.heap body.poly_vars expr_id definition poly_args
  | .struct_literal definition poly_args fields =>
    insert_initial_struct_polymorph_data body.heap body.poly_vars expr_id definition poly_args fields
  | .enum_literal definition poly_args =>
    insert_initial_enum_polymorph_data body.poly_vars expr_id definition poly_args
  | .union_literal definition poly_args variant_idx values =>
    insert_initial_union_polymorph_data body.heap body.poly_vars expr_id definition poly_args
      variant_idx values
  | .select _ _ => none

end TypedBody

-- The definitions of the builtin functions. Each refers to its own polymorphic argument.
section Builtins

variable (id : DefinitionId)

def builtin_function (name : Identifier) (polymorphic : List Identifier) (arguments : List Parameter)
    (return_type : ParserType) : Definition :=
  ⟨none, name, polymorphic, .function [return_type] arguments true⟩

def builtin_get : Definition :=
  builtin_function "get" ["T"] [⟨"input", [.input, .polymorphicArgument id 0]⟩]
    [.polymorphicArgument id 0]

def builtin_put : Definition :=
  builtin_function "put" ["T"] [⟨"output", [.output, .polymorphicArgument id 0]⟩,
    ⟨"value", [.polymorphicArgument id 0]⟩] [.void]

def builtin_fires : Definition :=
  builtin_function "fires" ["T"] [⟨"port", [.inputOrOutput, .polymorphicArgument id 0]⟩] [.bool]

def builtin_create : Definition :=
  builtin_function "create" ["T"] [⟨"length", [.integerLike]⟩]
    [.arrayLike, .polymorphicArgument id 0]

def builtin_length : Definition :=
  builtin_function "length" ["T"] [⟨"array", [.arrayLike, .polymorphicArgument id 0]⟩] [.uint32]

def builtin_assert : Definition :=
  builtin_function "assert" [] [⟨"condition", [.bool]⟩] [.void]

def builtin_functions : List Definition :=
  [builtin_get id, builtin_put id, builtin_fires id, builtin_create id, builtin_length id,
    builtin_assert]

end Builtins

end Reowolf.Types
