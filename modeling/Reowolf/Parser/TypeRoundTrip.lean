import Reowolf.Parser.TypeEntries

namespace Reowolf.Parser

theorem glue_angles_cons {token : Token} (h : token.kind ≠ .closeAngle) :
    (tokens : List Token) → glue_angles (token :: tokens) = token :: glue_angles tokens
  | [] => rfl
  | _ :: _ => by simp [glue_angles, h]

theorem glue_angles_plain {pre : List Token} (h : ∀ token ∈ pre, token.kind ≠ .closeAngle)
    (tokens : List Token) : glue_angles (pre ++ tokens) = pre ++ glue_angles tokens := by
  induction pre
  case nil => rfl
  case cons token pre ih =>
    obtain ⟨ht, h⟩ := List.forall_mem_cons.mp h
    rw [List.cons_append, glue_angles_cons ht, ih h, List.cons_append]

theorem glue_angles_path (names : List Identifier) (tokens : List Token) :
    glue_angles (path_tokens names ++ tokens) = path_tokens names ++ glue_angles tokens :=
  glue_angles_plain (fun token h hk => by cases TypeTree.mem_path_tokens h <;> simp_all) tokens

def brackets : Nat → List Token
  | 0 => []
  | n + 1 => .of .openSquare :: .of .closeSquare :: brackets n

theorem brackets_succ : (n : Nat) → brackets n ++ [.of .openSquare, .of .closeSquare] = brackets (n + 1)
  | 0 => rfl
  | n + 1 => by
    have ih := brackets_succ n
    simp only [brackets, List.cons_append] at ih ⊢
    rw [ih]

theorem brackets_kind {token : Token} {n : Nat} (h : token ∈ brackets n) :
    token.kind ≠ .closeAngle := by
  induction n
  case zero => cases h
  case succ n ih =>
    match List.mem_cons.mp h with
    | .inl h => simp [h]
    | .inr h =>
      match List.mem_cons.mp h with
      | .inl h => simp [h]
      | .inr h => exact ih h

theorem consume_arrays_brackets {n fuel : Nat} {elements : List ParserTypeElement} {rest : TokenIter}
    (hf : (brackets n ++ rest).length < fuel) (hr : rest.next ≠ some .openSquare) :
    consume_arrays fuel elements (brackets n ++ rest) =
      .ok (elements ++ List.replicate n ⟨.array, "[]"⟩, rest) := by
  induction n generalizing fuel elements
  case zero =>
    match fuel, hf with
    | fuel + 1, _ => simp [consume_arrays, brackets, hr]
  case succ n ih =>
    match fuel, hf with
    | fuel + 1, hf =>
      have hf : (brackets n ++ rest).length < fuel := by
        simp only [brackets, List.cons_append, List.length_cons] at hf
        omega
      simp [consume_arrays, brackets, bind, Except.bind, Token.of, consume_token, ih hf,
        List.replicate_succ]

namespace TypeTree

variable {ctx : TypeCtx} {path : ParserTypeVariant → List Identifier}

-- The number of array suffixes, and what they are put behind.
def arrays : TypeTree → Nat
  | node .. => 0
  | array element => element.arrays + 1

def core : TypeTree → TypeTree
  | node root args => node root args
  | array element  => element.core

theorem is_array_eq (tree : TypeTree) : tree.is_array = true ↔ tree.arrays ≠ 0 := by
  cases tree <;> simp [is_array, arrays]

theorem print_eq (tree : TypeTree) : tree.print path = tree.core.print path ++ brackets tree.arrays := by
  cases tree
  case node => simp [core, arrays, brackets]
  case array element =>
    rw [print, print_eq element, List.append_assoc, brackets_succ]
    rfl

theorem prefix_order_eq (tree : TypeTree) :
    tree.prefix_order = List.replicate tree.arrays .array ++ tree.core.prefix_order := by
  cases tree
  case node => simp [core, arrays]
  case array element =>
    rw [prefix_order, prefix_order_eq element]
    simp [core, arrays, List.replicate_succ]

theorem core_eq (tree : TypeTree) :
    ∃ root args, tree.core = node root args ∧ tree.is_explicit = !args.isEmpty := by
  cases tree
  case node root args => exact ⟨root, args, rfl, rfl⟩
  case array element  => exact core_eq element

theorem WellFormed.core {tree : TypeTree} (h : tree.WellFormed ctx path) :
    tree.core.WellFormed ctx path := by
  induction h
  case node hr hl hw _ => exact .node hr hl hw
  case array ih => exact ih

-- The tokens of a type behind which a number of angle braces are closed, and further tokens.
def tokens (path : ParserTypeVariant → List Identifier) (tree : TypeTree) (closed : Nat)
    (rest : TokenIter) : TokenIter :=
  glue_angles (tree.print path ++ List.replicate closed (.of .closeAngle)) ++ rest

-- The parser yields the type tree and consumes exactly its tokens, where a number of angle braces
-- have been opened in front of the type.
def ReadBack (ctx : TypeCtx) (path : ParserTypeVariant → List Identifier) (tree : TypeTree)
    (first_angle_depth : Nat) (rest : TokenIter) : Prop :=
  ∃ elements, consume_parser_type ctx first_angle_depth (tree.tokens path first_angle_depth rest) =
    .ok (elements, rest) ∧ elements.map (·.variant) = tree.prefix_order

-- The loop reads the arguments of the first type and closes their angle brace.
theorem rounds_explicit {root arg args} (h : (node root (arg :: args)).WellFormed ctx path)
    (depth : Nat) (rest : TokenIter) :
    TypeLoop.Rounds ctx
      ⟨.open, depth + 1, [⟨spelled path root, 0⟩], arg.print path ++ print_arguments path args ++ rest⟩
      ⟨.close, depth, ⟨spelled path root, 0⟩ :: argument_entries path (depth + 1) (arg :: args),
        rest⟩ := by
  match h with
  | .node _ _ hw =>
    obtain ⟨ha, has⟩ := List.forall_mem_cons.mp hw
    rw [List.append_assoc]
    refine ha.consumed (.inl rfl) (by omega) (rounds_arguments (fun arg hm => (has arg hm).consumed)
      arg.after_eq (by omega) (.inl ?_))
    simp [argument_entries]

theorem argument_tokens_kind {token : Token} {arg : TypeTree} {args : List TypeTree}
    (h : token ∈ arg.print path ++ print_arguments path args) : token.kind ≠ .shiftRight :=
  match List.mem_append.mp h with
  | .inl h => print_kind h
  | .inr h => print_arguments_kind h

-- What the parser does when polymorphic arguments are written out.
theorem consume_parser_type_explicit {root} (arg : TypeTree) (args : List TypeTree)
    (hr : Spells ctx root (path root)) (depth : Nat) (tokens rest : TokenIter) :
    ∃ fuel, (glue_angles (arg.print path ++ print_arguments path args ++ tokens) ++ rest).length < fuel ∧
      consume_parser_type ctx depth
        (glue_angles ((node root (arg :: args)).print path ++ tokens) ++ rest) =
        (TypeLoop.run ctx fuel ⟨.open, depth + 1, [⟨spelled path root, 0⟩],
          glue_angles (arg.print path ++ print_arguments path args ++ tokens) ++ rest⟩ >>=
        fun loop => check_subtypes ctx.allow_inference loop.elements.length [] loop.elements >>=
        fun elements => .ok (elements.map Entry.element, loop.iter)) := by
  refine ⟨(glue_angles (arg.print path ++ print_arguments path args ++ tokens) ++ rest).length + 2,
    by omega, ?_⟩
  simp only [print, List.append_assoc, List.cons_append, glue_angles_path]
  rw [glue_angles_cons (by simp)]
  simp only [consume_parser_type, consume_parser_type_ident_path hr, bind, Except.bind,
    List.cons_append, TokenIter.next_cons, Token.kind_of, if_true, TokenIter.consume_cons,
    List.length_cons]
  rfl

theorem WellFormed.root {root : ParserTypeVariant} {args : List TypeTree} :
    (TypeTree.node root args).WellFormed ctx path →
      Spells ctx root (path root) ∧ args.length = root.num_embedded
  | .node hr hl _ => ⟨hr, hl⟩

theorem WellFormed.prefix_order_head {tree : TypeTree} (h : tree.WellFormed ctx path)
    (rest : List ParserTypeVariant) : (tree.prefix_order ++ rest).head? ≠ some .inferred := by
  match tree, h with
  | .array _, _ => simp [prefix_order]
  | .node root args, h =>
    have hs := h.root.1
    have hr : root ≠ .inferred := by
      generalize path root = names at hs
      cases hs
      case builtin h => exact h
      all_goals simp
    simpa [prefix_order] using hr

-- Polymorphic arguments that are written out are read until their angle brace is closed.
theorem consume_explicit {root arg args} (h : (node root (arg :: args)).WellFormed ctx path)
    (rest : TokenIter) :
    ∃ elements, consume_parser_type ctx 0
        (glue_angles ((node root (arg :: args)).print path) ++ rest) = .ok (elements, rest) ∧
      elements.map (·.variant) = (node root (arg :: args)).prefix_order := by
  obtain ⟨fuel, hf, he⟩ := consume_parser_type_explicit arg args h.root.1 0 [] rest
  simp only [List.append_nil] at he hf
  have hg := (rounds_explicit h 0 rest).glued (glued_glue_angles _)
    (fun _ ht => argument_tokens_kind ht) rfl
  obtain ⟨fuel', _, hrun⟩ := hg.run hf
  have hc : Counted ((node root (arg :: args)).entries path 0 ++ []) :=
    h.counted (fun _ hm => by cases hm) trivial
  rw [List.append_nil] at hc
  rw [he]
  exists ((node root (arg :: args)).entries path 0).map Entry.element
  constructor
  · refine Except.bind_eq_ok.mpr ⟨_, hrun, Except.bind_eq_ok.mpr ⟨_, check_subtypes_counted hc, rfl⟩⟩
  · rw [List.map_map, ← map_entries 0]
    rfl

theorem glue_angles_brackets (tokens : List Token) (n : Nat) (closed : List Token) :
    glue_angles (tokens ++ brackets (n + 1) ++ closed) =
      glue_angles tokens ++ .of .openSquare :: .of .closeSquare :: glue_angles (brackets n ++ closed) := by
  rw [List.append_assoc, brackets, List.cons_append, glue_angles_append (by simp),
    glue_angles_cons (by simp), List.cons_append, glue_angles_cons (by simp)]

-- At the top level, what comes behind the arguments is not read.
theorem not_readBack_array {tree : TypeTree} (h : tree.WellFormed ctx path)
    (he : tree.is_explicit = true) (ha : tree.is_array = true) (rest : TokenIter) :
    ¬tree.ReadBack ctx path 0 rest := by
  obtain ⟨root, args, hc, hi⟩ := tree.core_eq
  have hw := h.core
  match args, hn : tree.arrays with
  | [], _ => simp [he] at hi
  | _ :: _, 0 => exact absurd hn ((is_array_eq tree).mp ha)
  | arg :: args, n + 1 =>
    rw [hc] at hw
    rintro ⟨elements, hr, _⟩
    obtain ⟨elements', hr', _⟩ := consume_explicit hw
      (.of .openSquare :: .of .closeSquare :: glue_angles (brackets n ++ []) ++ rest)
    rw [tokens, print_eq, hc, hn, List.replicate_zero, glue_angles_brackets, List.append_assoc,
      hr'] at hr
    have hl := congrArg List.length (Prod.mk.inj (Except.ok.inj hr)).2
    simp only [List.cons_append, List.length_cons, List.length_append] at hl
    omega

-- Behind an angle brace that is open already there is no array to be put in front of the first type.
theorem rposition_arguments {element : ParserTypeElement} (args : List TypeTree) :
    rposition (⟨element, 0⟩ :: argument_entries path 2 args) 1 = none := by
  simp only [rposition, Option.map_eq_none_iff, List.findIdx?_eq_none_iff, List.mem_reverse,
    List.mem_cons, decide_eq_false_iff_not]
  intro entry h
  cases h
  case inl h => simp [h]
  case inr h =>
    have := le_argument_depth h
    omega

-- Nor is the first type seen to have its arguments.
theorem check_subtypes_arguments {root : ParserTypeVariant} {arg : TypeTree} {args : List TypeTree}
    (h : (TypeTree.node root (arg :: args)).WellFormed ctx path) {num result}
    (hr : check_subtypes ctx.allow_inference (num + 1) []
      (⟨spelled path root, 0⟩ :: argument_entries path 2 (arg :: args)) = .ok result) :
    result.map (·.element.variant) ≠ (TypeTree.node root (arg :: args)).prefix_order := by
  have hl := h.root.2
  have hz : encountered_subtypes 0 (argument_entries path 2 (arg :: args)) = 0 := by
    rw [← List.append_nil (argument_entries _ _ _), encountered_deeper]
    · rfl
    · exact fun _ hm => le_argument_depth hm
  simp only [check_subtypes, Entry.num_embedded, spelled, ← hl, hz] at hr
  split at hr
  case isTrue h0 => cases h0
  case isFalse =>
    split at hr
    case isTrue h0 => exact absurd rfl h0
    case isFalse =>
      split at hr
      case isFalse => cases hr
      case isTrue =>
        obtain ⟨rest, he, hh⟩ := check_subtypes_ok hr
        intro hp
        cases h
        case node hw _ =>
          apply (hw arg (by simp)).prefix_order_head (prefix_orders args)
          simp only [he, prefix_order, prefix_orders, List.nil_append, List.cons_append, List.map_cons,
            List.cons.injEq] at hp
          rw [← hp.2, List.head?_map, hh]
          rfl

-- Behind an angle brace that is open already, the first type is taken to have no arguments.
theorem not_readBack_explicit {tree : TypeTree} (h : tree.WellFormed ctx path)
    (he : tree.is_explicit = true) (rest : TokenIter) : ¬tree.ReadBack ctx path 1 rest := by
  obtain ⟨root, args, hc, hi⟩ := tree.core_eq
  have hw := h.core
  rcases args with _ | ⟨arg, args⟩
  · simp [he] at hi
  rw [hc] at hw
  cases hn : tree.arrays
  case zero =>
    rintro ⟨elements, hr, hp⟩
    obtain ⟨fuel, hf, hr'⟩ := consume_parser_type_explicit arg args hw.root.1 1
      [.of .closeAngle] rest
    rw [tokens, print_eq, hc, hn, brackets, List.append_nil, List.replicate_one, hr'] at hr
    obtain ⟨loop, hloop, hr⟩ := Except.bind_eq_ok.mp hr
    have hrounds : TypeLoop.Rounds ctx
        ⟨.open, 1 + 1, [⟨spelled path root, 0⟩],
          arg.print path ++ print_arguments path args ++ [.of .closeAngle] ++ rest⟩
        ⟨.close, 0, ⟨spelled path root, 0⟩ :: argument_entries path 2 (arg :: args), rest⟩ := by
      rw [List.append_assoc]
      refine (rounds_explicit hw 1 _).trans (by simp) (.last ?_)
      simp [TypeLoop.round, TypeLoop.goto]
    have hg := hrounds.glued (glued_glue_angles _) (fun token ht => by
      cases List.mem_append.mp ht
      case inl ht => exact argument_tokens_kind ht
      case inr ht => simp [List.mem_singleton.mp ht]) rfl
    obtain ⟨fuel', hf', hrun⟩ := hg.run hf
    have hloop := hrun.symm.trans hloop
    simp only [Int.lt_irrefl, if_false, if_true] at hloop
    cases hloop
    obtain ⟨result, hcheck, hr⟩ := Except.bind_eq_ok.mp hr
    cases hr
    apply check_subtypes_arguments hw hcheck
    rw [prefix_order_eq, hn, hc, List.map_map] at hp
    exact hp
  case succ n =>
    rintro ⟨elements, hr, _⟩
    obtain ⟨fuel, hf, hr'⟩ := consume_parser_type_explicit arg args hw.root.1 1
      (brackets (n + 1) ++ [.of .closeAngle]) rest
    rw [tokens, print_eq, hc, hn, List.append_assoc, List.replicate_one, hr'] at hr
    obtain ⟨loop, hloop, _⟩ := Except.bind_eq_ok.mp hr
    have hg := (rounds_explicit hw 1 (.of .openSquare :: .of .closeSquare ::
      glue_angles (brackets n ++ [.of .closeAngle]) ++ rest)).glued (glued_glue_angles _)
      (fun _ ht => argument_tokens_kind ht) rfl
    rw [← List.append_assoc, glue_angles_brackets, List.append_assoc] at hloop hf
    obtain ⟨fuel', hf', hrun⟩ := hg.run hf
    have hloop := hrun.symm.trans hloop
    cases fuel'
    case zero => cases hf'
    case succ fuel' =>
      simp [TypeLoop.run, TypeLoop.round, TypeLoop.consume_array, insert_array_before,
        rposition_arguments, bind, Except.bind] at hloop

theorem consume_close_angles_replicate (depth : Nat) (rest : TokenIter) :
    consume_close_angles depth (List.replicate depth (.of .closeAngle) ++ rest) = .ok rest := by
  induction depth
  case zero => rfl
  case succ depth ih =>
    simp [consume_close_angles, List.replicate_succ, bind, Except.bind, consume_token, ih]

theorem readBack_implicit {tree : TypeTree} (h : tree.WellFormed ctx path)
    (he : tree.is_explicit = false) {depth : Nat} (hd : depth ≤ 1) {rest : TokenIter}
    (ho : depth = 0 → rest.next ≠ some .openAngle) (hs : depth = 0 → rest.next ≠ some .openSquare) :
    tree.ReadBack ctx path depth rest := by
  obtain ⟨root, args, hc, hi⟩ := tree.core_eq
  have hargs : args = [] := by simpa [he] using hi
  subst hargs
  have hw := h.core
  rw [hc] at hw
  have hn : root.num_embedded = 0 := hw.root.2.symm
  obtain ⟨hg, ho, hs⟩ : glue_angles (List.replicate depth (Token.of .closeAngle)) =
        List.replicate depth (Token.of .closeAngle) ∧
      TokenIter.next (List.replicate depth (.of .closeAngle) ++ rest) ≠ some .openAngle ∧
      TokenIter.next (List.replicate depth (.of .closeAngle) ++ rest) ≠ some .openSquare := by
    match depth, hd with
    | 0, _ => exact ⟨rfl, ho rfl, hs rfl⟩
    | 1, _ => exact ⟨rfl, by simp [List.replicate_succ], by simp [List.replicate_succ]⟩
  refine ⟨List.replicate tree.arrays ⟨.array, "[]"⟩ ++ [spelled path root], ?_, by
    simp [prefix_order_eq tree, hc, prefix_order, prefix_orders, spelled]⟩
  rw [tokens, print_eq, hc, print, List.append_assoc, glue_angles_path,
    glue_angles_plain fun _ => brackets_kind, hg, List.append_assoc, List.append_assoc]
  have hb : TokenIter.next (brackets tree.arrays ++ (List.replicate depth (.of .closeAngle) ++ rest)) ≠
      some .openAngle := by
    match tree.arrays with
    | 0 => exact ho
    | n + 1 => simp [brackets]
  simp only [consume_parser_type, consume_parser_type_ident_path hw.root.1, bind, Except.bind, hb,
    if_false, consume_arrays_brackets (Nat.lt_succ_self _) hs, hn, consume_close_angles_replicate]
  simp [spelled]

theorem readBack_explicit {tree : TypeTree} (h : tree.WellFormed ctx path)
    (ha : tree.is_array = false) (he : tree.is_explicit = true) (rest : TokenIter) :
    tree.ReadBack ctx path 0 rest := by
  match tree with
  | .node root (arg :: args) =>
    obtain ⟨elements, hc, hp⟩ := consume_explicit h rest
    exact ⟨elements, by rwa [tokens, List.replicate_zero, List.append_nil], hp⟩
  | .node root [] => simp [is_explicit] at he
  | .array _ => simp [is_array] at ha

-- A type is read back at the top level if it does not put an array around polymorphic arguments that
-- are written out, behind an angle brace that is open already if there are no such arguments at its
-- root, and as an argument of another type in any case.
theorem readBack_iff {tree : TypeTree} (h : tree.WellFormed ctx path) {rest : TokenIter}
    (ho : rest.next ≠ some .openAngle) (hs : rest.next ≠ some .openSquare) :
    (tree.ReadBack ctx path 0 rest ↔ ¬(tree.is_array = true ∧ tree.is_explicit = true)) ∧
    (tree.ReadBack ctx path 1 rest ↔ tree.is_explicit = false) ∧
    ∀ {root args}, tree ∈ args → (TypeTree.node root args).WellFormed ctx path →
      (TypeTree.node root args).ReadBack ctx path 0 rest := by
  refine ⟨⟨fun hr hc => ?_, fun hc => ?_⟩, ⟨fun hr => ?_, fun he => ?_⟩, fun {root args} hm hw => ?_⟩
  · exact not_readBack_array h hc.2 hc.1 rest hr
  · cases he : tree.is_explicit
    case false => exact readBack_implicit h he (by simp) (fun _ => ho) (fun _ => hs)
    case true => exact readBack_explicit h (by simpa [he] using hc) he rest
  · cases he : tree.is_explicit
    case false => rfl
    case true => exact absurd hr (not_readBack_explicit h he rest)
  · exact readBack_implicit h he (by simp) (by simp) (by simp)
  · match args, hm with
    | _ :: _, _ => exact readBack_explicit hw rfl rfl rest

-- A module that defines a type `Foo` with one polymorphic variable.
def foo_ctx : TypeCtx where
  symbols := {
    module_lookup := fun _ => none
    scope_lookup := fun
      | .global => some ⟨none, []⟩
      | .module 0 => some ⟨some .global,
          [⟨"Foo", .definition ⟨some 0, .module 0, none, .struct, 6⟩⟩]⟩
      | _ => none }
  num_poly_vars := fun _ => 1
  poly_vars := []
  cur_scope := .module 0
  wrapping_definition := 6
  allow_inference := true

def foo_path : ParserTypeVariant → List Identifier
  | .definition 6 1 => ["Foo"]
  | .uint32 => ["u32"]
  | _ => []

def foo (arg : TypeTree) : TypeTree := node (.definition 6 1) [arg]

def u32 : TypeTree := node .uint32 []

theorem u32_wellFormed : u32.WellFormed foo_ctx foo_path :=
  .node (.builtin rfl (by simp)) rfl (by simp)

theorem foo_wellFormed {arg : TypeTree} (h : arg.WellFormed foo_ctx foo_path) :
    (foo arg).WellFormed foo_ctx foo_path :=
  have hs : Spells foo_ctx (.definition 6 1) ["Foo"] :=
    @Spells.definition foo_ctx "Foo" "Foo" ⟨some 0, .module 0, none, .struct, 6⟩ rfl rfl rfl
  .node hs rfl (by simpa using h)

-- Of `Foo<u32>[]` the parser reads `Foo<u32>`.
theorem foo_array_not_readBack :
    (array (foo u32)).WellFormed foo_ctx foo_path ∧
      consume_parser_type foo_ctx 0 ((array (foo u32)).tokens foo_path 0 []) =
        .ok ([⟨.definition 6 1, "Foo"⟩, ⟨.uint32, "u32"⟩], [.of .openSquare, .of .closeSquare]) ∧
      ¬(array (foo u32)).ReadBack foo_ctx foo_path 0 [] := by
  refine ⟨.array (foo_wellFormed u32_wellFormed), rfl, ?_⟩
  rintro ⟨elements, h, _⟩
  cases h

-- `Foo<Foo<u32>[]>` is read back, at the top level and with its argument in it.
theorem readBack_iff_foo :
    (foo (array (foo u32))).ReadBack foo_ctx foo_path 0 [.ident "x"] ∧
      ¬(foo (array (foo u32))).ReadBack foo_ctx foo_path 1 [.ident "x"] ∧
      (foo (foo (array (foo u32)))).ReadBack foo_ctx foo_path 0 [.ident "x"] := by
  have hw := foo_wellFormed (.array (foo_wellFormed u32_wellFormed))
  have ho : TokenIter.next [.ident "x"] ≠ some .openAngle := by simp
  obtain ⟨h₀, h₁, ha⟩ := readBack_iff hw ho (by simp)
  exact ⟨h₀.mpr (by simp [foo, is_array]), fun h => Bool.noConfusion (h₁.mp h),
    ha (List.mem_singleton_self _) (foo_wellFormed hw)⟩

end TypeTree

end Reowolf.Parser
