import Reowolf.Parser.ExpressionRoundTrip

namespace Reowolf.Parser

-- The items of a list with the commas between them, and one behind the last one or not.
def separated (trailing : Bool) : List (List Token) → List Token
  | [] => []
  | [item] => item ++ if trailing then [.of .comma] else []
  | item :: item' :: items => item ++ .of .comma :: separated trailing (item' :: items)

-- A type without polymorphic arguments, which are inferred if there are any.
inductive FormsElided (ctx : TypeCtx) : List Token → List ParserTypeVariant → Prop
  | root {root names} (arrays : Nat) :
    Spells ctx root names → (root.num_embedded ≠ 0 → ctx.allow_inference = true) →
    FormsElided ctx (path_tokens names ++ brackets arrays)
      (List.replicate arrays .array ++ root :: List.replicate root.num_embedded .inferred)
  | auto (arrays : Nat) :
    ctx.allow_inference = true →
    FormsElided ctx (.ident "auto" :: brackets arrays) (List.replicate arrays .array ++ [.inferred])

-- Tokens that form a type where no angle brace is open.
inductive FormsType (ctx : TypeCtx) : List Token → List ParserTypeVariant → Prop
  | elided {tokens parser_type} : FormsElided ctx tokens parser_type → FormsType ctx tokens parser_type
  | explicit {path root arg args} :
    (TypeTree.node root (arg :: args)).WellFormed ctx path →
    FormsType ctx (glue_angles ((TypeTree.node root (arg :: args)).print path))
      (TypeTree.node root (arg :: args)).prefix_order

-- What stands between `cast` and its argument.
inductive FormsCastType (ctx : ExpressionCtx) : List Token → List ParserTypeVariant → Prop
  | inferred : FormsCastType ctx [] [.inferred]
  | written {tokens parser_type} :
    FormsElided (ctx.type_ctx (.module ctx.root_id)) tokens parser_type →
    FormsCastType ctx (.of .openAngle :: (tokens ++ [.of .closeAngle])) parser_type

-- A name that stands for nothing but a variable or a keyword.
def ExpressionCtx.NoSymbol (ctx : ExpressionCtx) (text : Identifier) : Prop :=
  ctx.symbols.get_symbol_by_name (.module ctx.root_id) text = none

inductive KeywordLiteral : Identifier → Literal → Prop
  | null  : KeywordLiteral "null" .null
  | true  : KeywordLiteral "true" .true
  | false : KeywordLiteral "false" .false

-- The method that a function or component is called by.
inductive Calls (definition : NamedDefinition) : Method → Prop
  | component : definition.class = .component → Calls definition .userComponent
  | function : definition.class = .function → definition.builtin = false → Calls definition .userFunction
  | builtin {method} :
    definition.class = .function → definition.builtin = true →
    builtin_method definition.identifier = .ok method → Calls definition method

-- Tokens that form an expression at a level. The items of a list come with their tokens.
inductive FormsExpression (ctx : ExpressionCtx) : (level : Nat) → List Token → ExpressionTree → Prop
  | place {level level' tokens expression} :
    FormsExpression ctx level' tokens expression → 1 ≤ level → level ≤ level' →
    FormsExpression ctx level tokens expression
  | assignment {operation tokens tokens' left right} :
    FormsExpression ctx operand_level tokens left → FormsExpression ctx 1 tokens' right →
    FormsExpression ctx 1 (tokens ++ .of (assignment_token operation) :: tokens')
      (.assignment operation left right)
  | conditional {tokens tokens' tokens'' test true_expression false_expression} :
    FormsExpression ctx operand_level tokens test → FormsExpression ctx 1 tokens' true_expression →
    FormsExpression ctx 1 tokens'' false_expression →
    FormsExpression ctx 1 (tokens ++ .of .question :: (tokens' ++ .of .colon :: tokens''))
      (.conditional test true_expression false_expression)
  | binary {operation tokens tokens' left right} :
    FormsExpression ctx (binary_level operation) tokens left →
    FormsExpression ctx (binary_level operation + 1) tokens' right →
    FormsExpression ctx (binary_level operation) (tokens ++ .of (binary_token operation) :: tokens')
      (.binary operation left right)
  | unary {operation tokens expression} :
    FormsExpression ctx prefix_level tokens expression →
    FormsExpression ctx prefix_level (.of (unary_token operation) :: tokens) (.unary operation expression)
  | binding {tokens tokens' bound_to bound_from} :
    ctx.NoSymbol "let" → FormsExpression ctx prefix_level tokens bound_to →
    FormsExpression ctx prefix_level tokens' bound_from →
    FormsExpression ctx prefix_level (.ident "let" :: (tokens ++ .of .equal :: tokens'))
      (.binding bound_to bound_from)
  | indexing {tokens tokens' subject index} :
    FormsExpression ctx postfix_level tokens subject → FormsExpression ctx 1 tokens' index →
    FormsExpression ctx postfix_level (tokens ++ .of .openSquare :: (tokens' ++ [.of .closeSquare]))
      (.indexing subject index)
  | slicing {tokens tokens' tokens'' subject from_index to_index} :
    FormsExpression ctx postfix_level tokens subject → FormsExpression ctx 1 tokens' from_index →
    FormsExpression ctx 1 tokens'' to_index →
    FormsExpression ctx postfix_level
      (tokens ++ .of .openSquare :: (tokens' ++ .of .dotDot :: (tokens'' ++ [.of .closeSquare])))
      (.slicing subject from_index to_index)
  | select {tokens subject field_name} :
    FormsExpression ctx postfix_level tokens subject → is_reserved_keyword field_name = false →
    FormsExpression ctx postfix_level (tokens ++ [.of .dot, .ident field_name]) (.select subject field_name)
  | parens {tokens expression} :
    FormsExpression ctx 1 tokens expression →
    FormsExpression ctx 16 (.of .openParen :: tokens ++ [.of .closeParen]) expression
  | keyword {text value} :
    ctx.NoSymbol text → KeywordLiteral text value →
    FormsExpression ctx 16 [.ident text] (.literal value [] [])
  | integer {token value} :
    token.kind = .integer → consume_integer_literal [token] = .ok (value, []) →
    FormsExpression ctx 16 [token] (.literal (.integer value) [] [])
  | string {token value} :
    token.kind = .string → consume_string_literal [token] = .ok (value, []) →
    FormsExpression ctx 16 [token] (.literal (.string value) [] [])
  | array {trailing} (items : List (List Token × ExpressionTree)) :
    (∀ item ∈ items, FormsExpression ctx 1 item.1 item.2) →
    FormsExpression ctx 16
      (.of .openCurly :: (separated trailing (items.map Prod.fst) ++ [.of .closeCurly]))
      (.literal .array [] (items.map Prod.snd))
  | struct {definition parser_type tokens trailing} (items : List (Identifier × List Token × ExpressionTree)) :
    (ctx.definitions definition).class = .struct → TypeWritten ctx definition parser_type tokens →
    (∀ item ∈ items, is_reserved_keyword item.1 = false) →
    (∀ item ∈ items, FormsExpression ctx 1 item.2.1 item.2.2) →
    FormsExpression ctx 16 (tokens ++ .of .openCurly ::
        (separated trailing (items.map fun item => .ident item.1 :: .of .colon :: item.2.1) ++
          [.of .closeCurly]))
      (.literal (.struct definition (items.map Prod.fst)) parser_type (items.map (·.2.2)))
  | enum {definition parser_type tokens «variant»} :
    (ctx.definitions definition).class = .enum → TypeWritten ctx definition parser_type tokens →
    is_reserved_keyword «variant» = false →
    FormsExpression ctx 16 (tokens ++ [.of .colonColon, .ident «variant»])
      (.literal (.enum definition «variant») parser_type [])
  | plain_union {definition parser_type tokens «variant»} :
    (ctx.definitions definition).class = .union → TypeWritten ctx definition parser_type tokens →
    is_reserved_keyword «variant» = false →
    FormsExpression ctx 16 (tokens ++ [.of .colonColon, .ident «variant»])
      (.literal (.union definition «variant») parser_type [])
  | union {definition parser_type tokens «variant» trailing} (items : List (List Token × ExpressionTree)) :
    (ctx.definitions definition).class = .union → TypeWritten ctx definition parser_type tokens →
    is_reserved_keyword «variant» = false → (∀ item ∈ items, FormsExpression ctx 1 item.1 item.2) →
    FormsExpression ctx 16 (tokens ++ .of .colonColon :: .ident «variant» :: .of .openParen ::
        (separated trailing (items.map Prod.fst) ++ [.of .closeParen]))
      (.literal (.union definition «variant») parser_type (items.map Prod.snd))
  | call {definition parser_type tokens method trailing} (items : List (List Token × ExpressionTree)) :
    Calls (ctx.definitions definition) method → TypeWritten ctx definition parser_type tokens →
    (∀ item ∈ items, FormsExpression ctx 1 item.1 item.2) →
    FormsExpression ctx 16 (tokens ++ .of .openParen ::
        (separated trailing (items.map Prod.fst) ++ [.of .closeParen]))
      (.call method parser_type (items.map Prod.snd) definition)
  | cast {tokens tokens' to_type subject} :
    ctx.NoSymbol "cast" → FormsCastType ctx tokens to_type → FormsExpression ctx 1 tokens' subject →
    FormsExpression ctx 16
      (.ident "cast" :: (tokens ++ .of .openParen :: (tokens' ++ [.of .closeParen])))
      (.cast to_type subject)
  | «variable» {text} :
    ctx.NoSymbol text → text ∉ ["null", "true", "false", "let", "cast"] →
    FormsExpression ctx 16 [.ident text] (.variable text)

section

variable {ctx : TypeCtx} {tokens : List Token} {parser_type : List ParserTypeVariant}

theorem consume_auto (h : ctx.allow_inference = true) (rest : TokenIter) :
    consume_parser_type_ident ctx (.ident "auto" :: rest) = .ok (⟨.inferred, "auto"⟩, rest) := by
  have hauto : builtin_types.lookup "auto" = some .inferred := by decide
  simp only [consume_parser_type_ident, consume_any_ident_ident, bind, Except.bind, hauto, h,
    Bool.not_true, Bool.false_eq_true, and_false, if_false]

-- A name and arrays behind it, up to the angle braces that are to be closed.
theorem consume_elided {element : ParserTypeElement} {iter : TokenIter} {arrays depth : Nat}
    {rest : TokenIter} (h : ∀ rest, consume_parser_type_ident ctx (tokens ++ rest) = .ok (element, rest))
    (hn : element.variant.num_embedded ≠ 0 → ctx.allow_inference = true)
    (hi : iter = List.replicate depth (.of .closeAngle) ++ rest)
    (ho : iter.next ≠ some .openAngle) (hs : iter.next ≠ some .openSquare) :
    consume_parser_type ctx depth (tokens ++ (brackets arrays ++ iter)) =
      .ok (List.replicate arrays ⟨.array, "[]"⟩ ++ element ::
        List.replicate element.variant.num_embedded ⟨.inferred, element.section_at_span⟩, rest) := by
  have hopen : TokenIter.next (brackets arrays ++ iter) ≠ some .openAngle := by
    cases arrays with
    | zero   => exact ho
    | succ n => simp [brackets]
  have hallowed : ¬(element.variant.num_embedded ≠ 0 ∧ (!ctx.allow_inference) = true) := by
    intro hnot
    simp [hn hnot.left] at hnot
  simp only [consume_parser_type, h, bind, Except.bind, hopen, if_false,
    consume_arrays_brackets (Nat.lt_succ_self _) hs, hallowed]
  rw [hi, TypeTree.consume_close_angles_replicate, List.nil_append]

theorem FormsElided.consumed (h : FormsElided ctx tokens parser_type) (depth : Nat) (rest : TokenIter)
    (ho : depth = 0 → rest.next ≠ some .openAngle) (hs : depth = 0 → rest.next ≠ some .openSquare) :
    ∃ elements, consume_parser_type ctx depth
        (tokens ++ (List.replicate depth (.of .closeAngle) ++ rest)) = .ok (elements, rest) ∧
      elements.map (·.variant) = parser_type := by
  have hopen : TokenIter.next (List.replicate depth (.of .closeAngle) ++ rest) ≠ some .openAngle := by
    cases depth with
    | zero   => exact ho rfl
    | succ n => simp [List.replicate_succ]
  have hsquare : TokenIter.next (List.replicate depth (.of .closeAngle) ++ rest) ≠ some .openSquare := by
    cases depth with
    | zero   => exact hs rfl
    | succ n => simp [List.replicate_succ]
  cases h with
  | root arrays hroot hn =>
    rw [List.append_assoc]
    exact ⟨_, consume_elided (consume_parser_type_ident_path hroot) hn rfl hopen hsquare, by simp⟩
  | auto arrays ha =>
    have hauto := @consume_elided ctx [.ident "auto"] ⟨.inferred, "auto"⟩ _ arrays depth rest (consume_auto ha)
      (fun _ => ha) rfl hopen hsquare
    exact ⟨_, hauto, by simp [ParserTypeVariant.num_embedded]⟩

theorem FormsType.consumed (h : FormsType ctx tokens parser_type) (rest : TokenIter)
    (ho : rest.next ≠ some .openAngle) (hs : rest.next ≠ some .openSquare) :
    ∃ elements, consume_parser_type ctx 0 (tokens ++ rest) = .ok (elements, rest) ∧
      elements.map (·.variant) = parser_type := by
  cases h with
  | elided h   => exact h.consumed 0 rest (fun _ => ho) (fun _ => hs)
  | explicit h => exact TypeTree.consume_explicit h rest

end

section

variable {α : Type} {close_delim : TokenKind} {consumer_fn : TokenIter → Except Failure (α × TokenIter)}
  {bound : Nat} {trailing : Bool}

theorem length_le_separated (trailing : Bool) (items : List (List Token)) :
    items.length ≤ (separated trailing items).length + 1 := by
  induction items with
  | nil => simp
  | cons item items ih =>
    cases items with
    | nil             => simp
    | cons item' items =>
      simp only [separated, List.length_cons, List.length_append] at ih ⊢
      omega

theorem consume_separated_end (item_name : String) (rest : TokenIter) {fuel : Nat} (hf : 0 < fuel)
    (had_comma : Bool) (target : List α) :
    consume_comma_separated_until close_delim item_name consumer_fn fuel had_comma
      (.of close_delim :: rest) target = .ok (target, rest) := by
  cases fuel with
  | zero      => cases hf
  | succ fuel => simp [consume_comma_separated_until]

theorem consume_separated_round (item_name : String) {item : List Token × α}
    (h : ReadsItem consumer_fn close_delim bound (item.1, .ok item.2)) {rest : TokenIter}
    (hr : rest.next = some .comma ∨ rest.next = some close_delim) (hb : (item.1 ++ rest).length < bound)
    (fuel : Nat) (target : List α) :
    consume_comma_separated_until close_delim item_name consumer_fn (fuel + 1) true (item.1 ++ rest) target =
      if rest.next = some .comma then
        consume_comma_separated_until close_delim item_name consumer_fn fuel true rest.consume
          (target ++ [item.2])
      else
        consume_comma_separated_until close_delim item_name consumer_fn fuel false rest
          (target ++ [item.2]) := by
  have hsome : (TokenIter.next (item.1 ++ rest)).isNone = false := by
    obtain ⟨token, tail, he, _⟩ : ∃ token tail, rest = token :: tail ∧ True := by
      obtain hr | hr := hr <;> obtain ⟨token, tail, he, _⟩ := TokenIter.next_eq_some hr <;>
        exact ⟨token, tail, he, trivial⟩
    rw [he]
    cases item.1 <;> rfl
  rw [consume_comma_separated_until, if_neg (h.left rest)]
  simp only [hsome, Bool.not_true, Bool.or_self, Bool.false_eq_true, if_false, h.right rest hr hb]
  rfl

-- The list is read up to its end if its items are.
theorem consume_separated_until (trailing : Bool) (hc : close_delim ≠ .comma) (item_name : String)
    (rest : TokenIter) {items : List (List Token × α)}
    (h : ∀ item ∈ items, ReadsItem consumer_fn close_delim bound (item.1, .ok item.2)) {fuel : Nat}
    (hf : items.length < fuel) (target : List α)
    (hb : (separated trailing (items.map Prod.fst) ++ .of close_delim :: rest).length < bound) :
    consume_comma_separated_until close_delim item_name consumer_fn fuel true
        (separated trailing (items.map Prod.fst) ++ .of close_delim :: rest) target =
      .ok (target ++ items.map Prod.snd, rest) := by
  induction items generalizing fuel target with
  | nil =>
    rw [List.map_nil, List.map_nil, List.append_nil]
    exact consume_separated_end item_name rest hf true target
  | cons item items ih =>
    obtain ⟨hitem, h⟩ := List.forall_mem_cons.mp h
    cases fuel with
    | zero => cases hf
    | succ fuel =>
      have hf := Nat.lt_of_succ_lt_succ hf
      cases items with
      | nil =>
        cases trailing with
        | true =>
          simp only [List.map_cons, List.map_nil, separated, if_true, List.append_assoc, List.cons_append,
            List.nil_append] at hb ⊢
          rw [consume_separated_round item_name hitem (.inl rfl) hb]
          simp only [TokenIter.next_cons, Token.kind_of, if_true, TokenIter.consume_cons]
          exact consume_separated_end item_name rest hf true _
        | false =>
          simp only [List.map_cons, List.map_nil, separated, Bool.false_eq_true, if_false,
            List.append_nil] at hb ⊢
          rw [consume_separated_round item_name hitem (.inr rfl) hb]
          simp only [TokenIter.next_cons, Token.kind_of, Option.some.injEq, hc, if_false]
          exact consume_separated_end item_name rest hf false _
      | cons item' items =>
        simp only [List.map_cons, separated, List.append_assoc, List.cons_append] at hb ih ⊢
        rw [consume_separated_round item_name hitem (.inl rfl) hb]
        simp only [TokenIter.next_cons, Token.kind_of, if_true, TokenIter.consume_cons]
        rw [ih h hf (target ++ [item.2]) (by simp only [List.length_append, List.length_cons] at hb ⊢; omega)]
        simp

theorem consume_separated (trailing : Bool) (open_delim : TokenKind) (hc : close_delim ≠ .comma)
    (item_name list_name : String)
    (rest : TokenIter) {items : List (List Token × α)}
    (h : ∀ item ∈ items, ReadsItem consumer_fn close_delim bound (item.1, .ok item.2))
    (hb : (separated trailing (items.map Prod.fst) ++ .of close_delim :: rest).length < bound) :
    consume_comma_separated open_delim close_delim consumer_fn item_name list_name
        (.of open_delim :: (separated trailing (items.map Prod.fst) ++ .of close_delim :: rest)) =
      .ok (items.map Prod.snd, rest) := by
  have hl := length_le_separated trailing (items.map Prod.fst)
  rw [List.length_map] at hl
  simp only [consume_comma_separated, TokenIter.next_cons, Token.kind_of, if_true, TokenIter.consume_cons]
  rw [consume_separated_until trailing hc item_name rest h _ [] hb, List.nil_append]
  simp only [List.length_cons, List.length_append]
  omega

end

variable {ctx : ExpressionCtx}

-- What the induction over expressions proves: how they start and what is read at their level.
structure Parsed (ctx : ExpressionCtx) (level : Nat) (tokens : List Token) (expression : ExpressionTree) :
    Prop where
  bounds : 1 ≤ level ∧ level ≤ 16
  starts : Starts level tokens
  reads  : Reads ctx level tokens (.ok expression)
  chains : IsLoop level → Chains ctx level tokens (.ok expression)

namespace Parsed

variable {level level' : Nat} {tokens tokens' tokens'' : List Token}
  {expression expression' expression'' : ExpressionTree}

theorem place (h : Parsed ctx level' tokens expression) (hpos : 1 ≤ level) (hl : level ≤ level') :
    Parsed ctx level tokens expression where
  bounds := ⟨hpos, Nat.le_trans hl h.bounds.right⟩
  starts := h.starts.mono hl
  reads  := h.reads.lower h.starts hpos hl h.bounds.right
  chains hloop := by
    obtain rfl | hlt := Nat.eq_or_lt_of_le hl
    · exact h.chains hloop
    · exact (h.reads.lower h.starts (Nat.succ_pos level) hlt h.bounds.right).chains hloop

theorem of_chains (hloop : IsLoop level) (hs : Starts level tokens)
    (h : Chains ctx level tokens (.ok expression)) : Parsed ctx level tokens expression where
  bounds := ⟨by have := hloop.bounds; omega, by have := hloop.bounds; omega⟩
  starts := hs
  reads  := h.reads hloop
  chains _ := h

theorem of_primary (kind : TokenKind) (hn : TokenIter.next tokens = some kind)
    (hk : kind ∈ [TokenKind.ident, .openParen, .openCurly, .integer, .string, .character])
    (h : Reads ctx 16 tokens (.ok expression)) : Parsed ctx 16 tokens expression where
  bounds := ⟨by decide, by decide⟩
  starts := ⟨kind, hn, .inl hk⟩
  reads  := h
  chains hloop := absurd hloop.bounds.right (by decide)

theorem assignment {operation : AssignmentOperator} (h : Parsed ctx operand_level tokens expression)
    (h' : Parsed ctx 1 tokens' expression') :
    Parsed ctx 1 (tokens ++ .of (assignment_token operation) :: tokens')
      (.assignment operation expression expression') where
  bounds := ⟨by decide, by decide⟩
  starts := (h.starts.mono (by decide)).append _
  reads  := (h.place (by decide) (by decide)).reads.assignment h'.reads
  chains hloop := absurd hloop.bounds.left (by decide)

theorem conditional (h : Parsed ctx operand_level tokens expression)
    (h' : Parsed ctx 1 tokens' expression') (h'' : Parsed ctx 1 tokens'' expression'') :
    Parsed ctx 1 (tokens ++ .of .question :: (tokens' ++ .of .colon :: tokens''))
      (.conditional expression expression' expression'') where
  bounds := ⟨by decide, by decide⟩
  starts := (h.starts.mono (by decide)).append _
  reads  := h.reads.conditional h'.reads h''.reads
  chains hloop := absurd hloop.bounds.left (by decide)

theorem binary {operation : BinaryOperator} (h : Parsed ctx (binary_level operation) tokens expression)
    (h' : Parsed ctx (binary_level operation + 1) tokens' expression') :
    Parsed ctx (binary_level operation) (tokens ++ .of (binary_token operation) :: tokens')
      (.binary operation expression expression') :=
  .of_chains (.binary operation) (h.starts.append _) ((h.chains (.binary operation)).binary h'.reads)

theorem unary {operation : UnaryOperator} (h : Parsed ctx prefix_level tokens expression) :
    Parsed ctx prefix_level (.of (unary_token operation) :: tokens) (.unary operation expression) where
  bounds := ⟨by decide, by decide⟩
  starts := ⟨unary_token operation, rfl, .inr ⟨Nat.le_refl _, operation, rfl⟩⟩
  reads  := h.reads.unary
  chains hloop := absurd hloop not_isLoop_prefix

theorem indexing (h : Parsed ctx postfix_level tokens expression) (h' : Parsed ctx 1 tokens' expression') :
    Parsed ctx postfix_level (tokens ++ .of .openSquare :: (tokens' ++ [.of .closeSquare]))
      (.indexing expression expression') :=
  .of_chains .suffixes (h.starts.append _) ((h.chains .suffixes).indexing h'.reads)

theorem slicing (h : Parsed ctx postfix_level tokens expression) (h' : Parsed ctx 1 tokens' expression')
    (h'' : Parsed ctx 1 tokens'' expression'') :
    Parsed ctx postfix_level
      (tokens ++ .of .openSquare :: (tokens' ++ .of .dotDot :: (tokens'' ++ [.of .closeSquare])))
      (.slicing expression expression' expression'') :=
  .of_chains .suffixes (h.starts.append _) ((h.chains .suffixes).slicing h'.reads h''.reads)

theorem select {field_name : Identifier} (h : Parsed ctx postfix_level tokens expression)
    (hn : is_reserved_keyword field_name = false) :
    Parsed ctx postfix_level (tokens ++ [.of .dot, .ident field_name]) (.select expression field_name) :=
  .of_chains .suffixes (h.starts.append _) ((h.chains .suffixes).select hn)

-- A binding ends where its second operand does, so what would carry that on cannot follow.
theorem binding (hs : ctx.NoSymbol "let") (h : Parsed ctx prefix_level tokens expression)
    (h' : Parsed ctx prefix_level tokens' expression') :
    Parsed ctx prefix_level (.ident "let" :: (tokens ++ .of .equal :: tokens'))
      (.binding expression expression') where
  bounds := ⟨by decide, by decide⟩
  starts := ⟨.ident, rfl, .inl (by decide)⟩
  reads fuel rest hr hf := by
    simp only [List.cons_append, List.append_assoc, List.length_cons, List.length_append] at hf
    have he := h.reads.prefix_expression fuel (.of .equal :: (tokens' ++ rest)) (follow_cons (by decide) _)
      (by simp only [List.length_append, List.length_cons]; omega)
    have he' := h'.reads.prefix_expression fuel rest hr (by simp only [List.length_append]; omega)
    have hprimary : consume_primary_expression ctx (recursion ctx fuel)
        (.ident "let" :: (tokens ++ .of .equal :: (tokens' ++ rest))) =
          .ok (.binding expression expression', rest) := by
      simp only [consume_primary_expression, TokenIter.next_cons, Token.kind_ident, consume_any_ident_ident,
        bind, Except.bind, show ctx.symbols.get_symbol_by_name _ _ = none from hs, Option.isSome_none,
        Bool.false_eq_true, if_false, consume_keyword_or_variable] at he he' ⊢
      simp [he, he']
    have hstop : loop_at ctx (recursion ctx fuel) 15 (rest.length + 1)
        (.binding expression expression') rest = .ok (.binding expression expression', rest) :=
      loop_at_stop .suffixes (hr.mono (by decide)) _ (Nat.lt_succ_self _) _
    simp only [prefix_level, at_level_unary, consume_prefix_expression, List.cons_append, List.append_assoc,
      TokenIter.next_cons, Token.kind_ident, parse_prefix_token, consume_postfix_expression, hprimary]
    exact hstop
  chains hloop := absurd hloop not_isLoop_prefix

theorem parens (h : Parsed ctx 1 tokens expression) :
    Parsed ctx 16 (.of .openParen :: tokens ++ [.of .closeParen]) expression :=
  .of_primary .openParen rfl (by decide) h.reads.parens

end Parsed

section

variable {value : BitVec 64} {text : Identifier} {token : Token}

theorem consume_integer_literal_of (h : consume_integer_literal [token] = .ok (value, []))
    (rest : TokenIter) : consume_integer_literal (token :: rest) = .ok (value, rest) := by
  simp only [consume_integer_literal] at h ⊢
  split at h
  case isTrue hk =>
    rw [if_pos hk]
    split at h <;> cases h
    rfl
  case isFalse => cases h

theorem consume_string_literal_of {value : String} (h : consume_string_literal [token] = .ok (value, []))
    (rest : TokenIter) : consume_string_literal (token :: rest) = .ok (value, rest) := by
  simp only [consume_string_literal] at h ⊢
  split at h
  case isTrue hk =>
    rw [if_pos hk]
    split at h
    case isTrue => cases h
    case isFalse ha =>
      rw [if_neg ha]
      obtain ⟨buffer, hbuffer, h⟩ := Except.bind_eq_ok.mp h
      cases h
      rw [hbuffer]
      rfl
  case isFalse => cases h

end

namespace Parsed

variable {level : Nat} {tokens tokens' : List Token} {expression : ExpressionTree} {trailing : Bool}
  {definition : DefinitionId} {parser_type : List ParserTypeVariant} {text «variant» : Identifier}
  {items : List (List Token × ExpressionTree)}

theorem keyword {value : Literal} (hs : ctx.NoSymbol text) (hv : KeywordLiteral text value) :
    Parsed ctx 16 [.ident text] (.literal value [] []) := by
  refine of_primary .ident rfl (by decide) (ExpressionTree.reads_keyword hs fun rec iter => ?_)
  cases hv <;> rfl

theorem «variable» (hs : ctx.NoSymbol text) (hn : text ∉ ["null", "true", "false", "let", "cast"]) :
    Parsed ctx 16 [.ident text] (.variable text) := by
  refine of_primary .ident rfl (by decide) fun fuel rest hr _ => ?_
  simp only [List.mem_cons, List.not_mem_nil, or_false, not_or] at hn
  obtain ⟨hnull, htrue, hfalse, hlet, hcast⟩ := hn
  simp only [at_level_primary, consume_primary_expression, List.cons_append, List.nil_append,
    TokenIter.next_cons, Token.kind_ident, consume_any_ident_ident, bind, Except.bind,
    show ctx.symbols.get_symbol_by_name _ _ = none from hs, Option.isSome_none, Bool.false_eq_true, if_false,
    consume_keyword_or_variable, hnull, htrue, hfalse, hlet, hcast]
  split
  case h_4 => rfl
  all_goals exact absurd (hr _ ‹_›) (by decide)

theorem integer {token : Token} {value : BitVec 64} (hk : token.kind = .integer)
    (hv : consume_integer_literal [token] = .ok (value, [])) :
    Parsed ctx 16 [token] (.literal (.integer value) [] []) := by
  refine of_primary _ (congrArg some hk) (by decide) fun fuel rest _ _ => ?_
  simp only [at_level_primary, consume_primary_expression, List.cons_append, List.nil_append,
    TokenIter.next_cons, hk, consume_integer_literal_of hv]
  rfl

theorem string {token : Token} {value : String} (hk : token.kind = .string)
    (hv : consume_string_literal [token] = .ok (value, [])) :
    Parsed ctx 16 [token] (.literal (.string value) [] []) := by
  refine of_primary _ (congrArg some hk) (by decide) fun fuel rest _ _ => ?_
  simp only [at_level_primary, consume_primary_expression, List.cons_append, List.nil_append,
    TokenIter.next_cons, hk, consume_string_literal_of hv]
  rfl

theorem readsItem (h : Parsed ctx 1 tokens expression) {close_delim : TokenKind}
    (hc : close_delim ∈ [TokenKind.closeParen, .closeCurly]) (fuel : Nat) :
    ReadsItem (recursion ctx fuel).consume_expression close_delim fuel (tokens, .ok expression) :=
  ⟨fun rest => h.starts.next_ne rest hc,
    fun rest hr hb => h.reads.expression fuel rest (ExpressionTree.follow_item hc hr) hb⟩

-- The expressions of a list, with the functions that consume them bounded by the length of all of it.
theorem consume_expressions (h : ∀ item ∈ items, Parsed ctx 1 item.1 item.2) (trailing : Bool)
    (open_delim close_delim : TokenKind) (hc : close_delim ∈ [TokenKind.closeParen, .closeCurly])
    (item_name list_name : String) (fuel : Nat) (rest : TokenIter)
    (hb : (separated trailing (items.map Prod.fst) ++ .of close_delim :: rest).length < fuel) :
    consume_comma_separated open_delim close_delim (recursion ctx fuel).consume_expression item_name list_name
        (.of open_delim :: (separated trailing (items.map Prod.fst) ++ .of close_delim :: rest)) =
      .ok (items.map Prod.snd, rest) :=
  consume_separated trailing open_delim (by rintro rfl; simp at hc) item_name list_name rest
    (fun item hm => (h item hm).readsItem hc fuel) hb

theorem array (h : ∀ item ∈ items, Parsed ctx 1 item.1 item.2) :
    Parsed ctx 16 (.of .openCurly :: (separated trailing (items.map Prod.fst) ++ [.of .closeCurly]))
      (.literal .array [] (items.map Prod.snd)) := by
  refine of_primary .openCurly rfl (by decide) fun fuel rest _ hb => ?_
  have hitems := consume_expressions h trailing .openCurly .closeCurly (by decide) "an expression"
    "a list of expressions" fuel rest
    (by simp only [List.cons_append, List.append_assoc, List.length_cons, List.length_append] at hb ⊢; omega)
  simp only [at_level_primary, consume_primary_expression, List.cons_append, List.append_assoc,
    List.nil_append, TokenIter.next_cons, Token.kind_of, hitems]
  rfl

-- What starts with a type is decided on by the definition that the type stands for.
theorem of_type (ht : TypeWritten ctx definition parser_type tokens) (kind : TokenKind)
    (hn : TokenIter.next tokens' = some kind) (hk : kind ≠ .openAngle ∧ kind ≠ .openSquare)
    (h : ∀ fuel rest, Follow 16 rest → (tokens' ++ rest).length < fuel →
      consume_instantiation ctx (recursion ctx fuel) parser_type (tokens' ++ rest) = .ok (expression, rest)) :
    Parsed ctx 16 (tokens ++ tokens') expression := by
  obtain ⟨name, tail, he, _⟩ := ht.head
  obtain ⟨ho, hs⟩ := hk
  have hnext : ∀ rest, TokenIter.next (tokens' ++ rest) = some kind := by
    intro rest
    obtain ⟨token, tail, htokens, ht⟩ := TokenIter.next_eq_some hn
    rw [htokens]
    exact congrArg some ht
  refine of_primary .ident (by rw [he]; rfl) (by decide) fun fuel rest hr hb => ?_
  rw [at_level_primary, List.append_assoc, ht.consume_primary _ (by simp [hnext, ho]) (by simp [hnext, hs]),
    h fuel rest hr]
  · rfl
  · rw [he] at hb
    simp only [List.cons_append, List.append_assoc, List.length_cons, List.length_append] at hb ⊢
    omega

theorem enum (hc : (ctx.definitions definition).class = .enum)
    (ht : TypeWritten ctx definition parser_type tokens) (hv : is_reserved_keyword «variant» = false) :
    Parsed ctx 16 (tokens ++ [.of .colonColon, .ident «variant»])
      (.literal (.enum definition «variant») parser_type []) := by
  obtain ⟨num, tail, he⟩ := ht.definition
  refine of_type ht .colonColon rfl (by decide) fun fuel rest _ _ => ?_
  subst he
  simp [consume_instantiation, hc, consume_ident_ident hv, bind, Except.bind]

theorem plain_union (hc : (ctx.definitions definition).class = .union)
    (ht : TypeWritten ctx definition parser_type tokens) (hv : is_reserved_keyword «variant» = false) :
    Parsed ctx 16 (tokens ++ [.of .colonColon, .ident «variant»])
      (.literal (.union definition «variant») parser_type []) := by
  obtain ⟨num, tail, he⟩ := ht.definition
  refine of_type ht .colonColon rfl (by decide) fun fuel rest hr _ => ?_
  subst he
  have hopen : rest.next ≠ some .openParen := fun h => absurd (hr _ h) (by decide)
  simp [consume_instantiation, hc, consume_ident_ident hv, bind, Except.bind, hopen]

theorem union (hc : (ctx.definitions definition).class = .union)
    (ht : TypeWritten ctx definition parser_type tokens) (hv : is_reserved_keyword «variant» = false)
    (h : ∀ item ∈ items, Parsed ctx 1 item.1 item.2) :
    Parsed ctx 16 (tokens ++ .of .colonColon :: .ident «variant» :: .of .openParen ::
        (separated trailing (items.map Prod.fst) ++ [.of .closeParen]))
      (.literal (.union definition «variant») parser_type (items.map Prod.snd)) := by
  obtain ⟨num, tail, he⟩ := ht.definition
  refine of_type ht .colonColon rfl (by decide) fun fuel rest _ hb => ?_
  subst he
  have hitems := consume_expressions h trailing .openParen .closeParen (by decide) "an expression"
    "a list of expressions" fuel rest
    (by simp only [List.cons_append, List.append_assoc, List.length_cons, List.length_append] at hb ⊢; omega)
  simp [consume_instantiation, hc, consume_ident_ident hv, bind, Except.bind, consume_expression_list,
    hitems]

theorem struct {items : List (Identifier × List Token × ExpressionTree)}
    (hc : (ctx.definitions definition).class = .struct)
    (ht : TypeWritten ctx definition parser_type tokens)
    (hf : ∀ item ∈ items, is_reserved_keyword item.1 = false)
    (h : ∀ item ∈ items, Parsed ctx 1 item.2.1 item.2.2) :
    Parsed ctx 16 (tokens ++ .of .openCurly ::
        (separated trailing (items.map fun item => .ident item.1 :: .of .colon :: item.2.1) ++
          [.of .closeCurly]))
      (.literal (.struct definition (items.map Prod.fst)) parser_type (items.map (·.2.2))) := by
  obtain ⟨num, tail, he⟩ := ht.definition
  refine of_type ht .openCurly rfl (by decide) fun fuel rest _ hb => ?_
  subst he
  let fields := items.map fun item => ((Token.ident item.1 :: Token.of .colon :: item.2.1), (item.1, item.2.2))
  have hitems : ∀ item ∈ fields,
      ReadsItem (consume_struct_field (recursion ctx fuel)) .closeCurly fuel (item.1, .ok item.2) := by
    intro item hm
    obtain ⟨field, hm, he⟩ := List.mem_map.mp hm
    rw [← he]
    refine ⟨fun rest => by simp, fun rest hr hb => ?_⟩
    have hvalue := (h field hm).reads.expression fuel rest (ExpressionTree.follow_item (by decide) hr)
      (by simp only [List.cons_append, List.length_cons] at hb; omega)
    simp [consume_struct_field, consume_ident_ident (hf field hm), bind, Except.bind, hvalue]
  have hlist := consume_separated trailing .openCurly (by decide) "a struct field" "a list of struct fields"
    rest hitems
    (by simp only [fields, List.map_map, Function.comp_def, List.cons_append, List.append_assoc,
      List.length_cons, List.length_append] at hb ⊢; omega)
  simp only [fields, List.map_map, Function.comp_def] at hlist
  simp [consume_instantiation, hc, bind, Except.bind, hlist]

theorem call {method : Method} (hc : Calls (ctx.definitions definition) method)
    (ht : TypeWritten ctx definition parser_type tokens)
    (h : ∀ item ∈ items, Parsed ctx 1 item.1 item.2) :
    Parsed ctx 16 (tokens ++ .of .openParen ::
        (separated trailing (items.map Prod.fst) ++ [.of .closeParen]))
      (.call method parser_type (items.map Prod.snd) definition) := by
  obtain ⟨num, tail, he⟩ := ht.definition
  refine of_type ht .openParen rfl (by decide) fun fuel rest _ hb => ?_
  subst he
  have hitems := consume_expressions h trailing .openParen .closeParen (by decide) "an expression"
    "a list of expressions" fuel rest
    (by simp only [List.cons_append, List.append_assoc, List.length_cons, List.length_append] at hb ⊢; omega)
  cases hc with
  | component hc      => simp [consume_instantiation, hc, bind, Except.bind, consume_expression_list, hitems]
  | function hc hb    =>
    simp [consume_instantiation, hc, hb, bind, Except.bind, consume_expression_list, hitems]
  | builtin hc hb hm =>
    simp [consume_instantiation, hc, hb, hm, bind, Except.bind, consume_expression_list, hitems]

theorem cast {to_type : List ParserTypeVariant} (hs : ctx.NoSymbol "cast")
    (ht : FormsCastType ctx tokens to_type) (h : Parsed ctx 1 tokens' expression) :
    Parsed ctx 16 (.ident "cast" :: (tokens ++ .of .openParen :: (tokens' ++ [.of .closeParen])))
      (.cast to_type expression) := by
  refine of_primary .ident rfl (by decide) fun fuel rest _ hb => ?_
  have hsubject := h.reads.expression fuel (.of .closeParen :: rest) (follow_cons (by decide) _)
    (by simp only [List.cons_append, List.append_assoc, List.length_cons, List.length_append] at hb ⊢; omega)
  simp only [at_level_primary, consume_primary_expression, List.cons_append, TokenIter.next_cons,
    Token.kind_ident, consume_any_ident_ident, bind, Except.bind,
    show ctx.symbols.get_symbol_by_name _ _ = none from hs, Option.isSome_none, Bool.false_eq_true, if_false]
  cases ht with
  | inferred =>
    simp [consume_keyword_or_variable, bind, Except.bind, hsubject]
  | written ht =>
    obtain ⟨elements, hc, he⟩ := ht.consumed 1 (.of .openParen :: (tokens' ++ .of .closeParen :: rest))
      (by simp) (by simp)
    simp only [List.replicate_one, List.singleton_append] at hc
    simp [consume_keyword_or_variable, bind, Except.bind, hc, he, hsubject]

end Parsed

-- What forms an expression is read at its level.
theorem FormsExpression.parsed {level : Nat} {tokens : List Token} {expression : ExpressionTree}
    (h : FormsExpression ctx level tokens expression) : Parsed ctx level tokens expression := by
  induction h with
  | place _ hpos hl ih                => exact ih.place hpos hl
  | assignment _ _ ihl ihr            => exact ihl.assignment ihr
  | conditional _ _ _ iht iha ihb     => exact iht.conditional iha ihb
  | binary _ _ ihl ihr                => exact ihl.binary ihr
  | unary _ ih                        => exact ih.unary
  | binding hs _ _ iht ihf            => exact iht.binding hs ihf
  | indexing _ _ ihs ihi              => exact ihs.indexing ihi
  | slicing _ _ _ ihs ihf iht         => exact ihs.slicing ihf iht
  | select _ hn ih                    => exact ih.select hn
  | parens _ ih                       => exact ih.parens
  | keyword hs hv                     => exact .keyword hs hv
  | integer hk hv                     => exact .integer hk hv
  | string hk hv                      => exact .string hk hv
  | array items _ ih                  => exact .array ih
  | struct items hc ht hf _ ih        => exact .struct hc ht hf ih
  | enum hc ht hv                     => exact .enum hc ht hv
  | plain_union hc ht hv              => exact .plain_union hc ht hv
  | union items hc ht hv _ ih         => exact .union hc ht hv ih
  | call items hc ht _ ih             => exact .call hc ht ih
  | cast hs ht _ ih                   => exact .cast hs ht ih
  | «variable» hs hn                  => exact .variable hs hn

theorem TokenIter.follow_of (rest : TokenIter) (kind : TokenKind) (hk : kind_level kind < 1) :
    Follow 1 (.of kind :: rest) :=
  follow_cons hk rest

theorem FormsExpression.consumed {tokens : List Token} {expression : ExpressionTree} {rest : TokenIter}
    (h : FormsExpression ctx 1 tokens expression) (hr : Follow 1 rest) :
    consume_expression ctx (tokens ++ rest) = .ok (expression, rest) :=
  h.parsed.reads.expression _ rest hr (Nat.lt_succ_self _)

-- The parser reads every expression of the grammar, up to what cannot carry it on. The tokens cannot be
-- taken for another expression, and no other part of them for one.
theorem expression_grammar_unambiguous {tokens : List Token} {expression : ExpressionTree}
    {rest : TokenIter} (h : FormsExpression ctx 1 tokens expression) (hr : Follow 1 rest) :
    consume_expression ctx (tokens ++ rest) = .ok (expression, rest) ∧
    ∀ tokens' expression' rest', FormsExpression ctx 1 tokens' expression' → Follow 1 rest' →
      tokens' ++ rest' = tokens ++ rest → tokens' = tokens ∧ expression' = expression ∧ rest' = rest := by
  have hread := h.consumed hr
  refine ⟨hread, fun tokens' expression' rest' h' hr' he => ?_⟩
  have hread' := h'.consumed hr'
  rw [he] at hread'
  cases hread.symm.trans hread'
  exact ⟨List.append_cancel_right he, rfl, rfl⟩

theorem empty_ctx_noSymbol (text : Identifier) : ExpressionTree.empty_ctx.NoSymbol text := by
  unfold ExpressionCtx.NoSymbol
  rfl

-- The expression `y ? { let x = cast<u8>(z[0]) && true, } : -y`.
open ExpressionTree in
theorem expression_grammar_unambiguous_binding :
    let tokens : List Token := [.ident "y", .of .question, .of .openCurly, .ident "let", .ident "x",
      .of .equal, .ident "cast", .of .openAngle, .ident "u8", .of .closeAngle, .of .openParen, .ident "z",
      .of .openSquare, ⟨.integer, "0", ""⟩, .of .closeSquare, .of .closeParen, .of .andAnd, .ident "true",
      .of .comma, .of .closeCurly, .of .colon, .of .minus, .ident "y"]
    let expression : ExpressionTree := .conditional (.variable "y")
      (.literal .array [] [.binary .logicalAnd
        (.binding (.variable "x") (.cast [.uint8] (.indexing (.variable "z") (.literal (.integer 0) [] []))))
        (.literal .true [] [])])
      (.unary .negative (.variable "y"))
    consume_expression empty_ctx (tokens ++ [.of .semiColon]) = .ok (expression, [.of .semiColon]) ∧
    ∀ tokens' expression' rest', FormsExpression empty_ctx 1 tokens' expression' → Follow 1 rest' →
      tokens' ++ rest' = tokens ++ [.of .semiColon] →
      tokens' = tokens ∧ expression' = expression ∧ rest' = [.of .semiColon] := by
  intro tokens expression
  have hvar : ∀ text level, text ∉ ["null", "true", "false", "let", "cast"] → 1 ≤ level → level ≤ 16 →
      FormsExpression empty_ctx level [.ident text] (.variable text) :=
    fun text _ hn hpos hl => .place (.variable (empty_ctx_noSymbol text) hn) hpos hl
  have hzero : FormsExpression empty_ctx 1 [⟨.integer, "0", ""⟩] (.literal (.integer 0) [] []) :=
    .place (.integer rfl rfl) (by decide) (by decide)
  have hindexing := FormsExpression.indexing (hvar "z" postfix_level (by decide) (by decide) (by decide)) hzero
  have htype : FormsCastType empty_ctx [.of .openAngle, .ident "u8", .of .closeAngle] [.uint8] :=
    .written (.root 0 (.builtin rfl (by decide)) fun hn => absurd rfl hn)
  have hcast := FormsExpression.cast (empty_ctx_noSymbol _) htype (.place hindexing (by decide) (by decide))
  have hbinding := FormsExpression.binding (empty_ctx_noSymbol _)
    (hvar "x" prefix_level (by decide) (by decide) (by decide)) (.place hcast (by decide) (by decide))
  have hand := @FormsExpression.binary _ .logicalAnd _ _ _ _ (.place hbinding (by decide) (by decide))
    (.place (.keyword (empty_ctx_noSymbol _) .true) (by decide) (by decide))
  have harray := @FormsExpression.array _ true [(_, _)]
    (List.forall_mem_singleton.mpr (.place hand (by decide) (by decide)))
  have hnegative := @FormsExpression.unary _ .negative _ _
    (hvar "y" prefix_level (by decide) (by decide) (by decide))
  have hforms : FormsExpression empty_ctx 1 tokens expression :=
    .conditional (hvar "y" operand_level (by decide) (by decide) (by decide))
      (.place harray (by decide) (by decide)) (.place hnegative (by decide) (by decide))
  exact expression_grammar_unambiguous hforms (TokenIter.follow_of [] .semiColon (by decide))

end Reowolf.Parser
