import Reowolf.Parser.ExpressionLiterals

namespace Reowolf.Parser

variable {ctx : ExpressionCtx}

theorem comma_separated_cons (item item' : List Token) (items : List (List Token)) :
    comma_separated (item :: item' :: items) =
      item ++ .of .comma :: comma_separated (item' :: items) := by
  simp [comma_separated]

theorem length_le_comma_separated : (items : List (List Token)) →
    items.length ≤ (comma_separated items).length + 1
  | [] => by simp
  | [_] => by simp
  | item :: item' :: items => by
    have := length_le_comma_separated (item' :: items)
    rw [comma_separated_cons]
    simp only [List.length_cons, List.length_append] at this ⊢
    omega

section

variable {α : Type} {close_delim : TokenKind}
  {consumer_fn : TokenIter → Except Failure (α × TokenIter)} {bound : Nat}

-- An item of a list is read up to the next comma or the end of the list.
def ReadsItem (consumer_fn : TokenIter → Except Failure (α × TokenIter)) (close_delim : TokenKind)
    (bound : Nat) (item : List Token × Except Failure α) : Prop :=
  (∀ rest, TokenIter.next (item.1 ++ rest) ≠ some close_delim) ∧
  ∀ rest : TokenIter, rest.next = some .comma ∨ rest.next = some close_delim → (item.1 ++ rest).length < bound →
    consumer_fn (item.1 ++ rest) = item.2 >>= fun value => .ok (value, rest)

theorem consume_items (hc : close_delim ≠ .comma) (item_name : String) (rest : TokenIter) :
    (items : List (List Token × Except Failure α)) →
      (∀ item ∈ items, ReadsItem consumer_fn close_delim bound item) → (fuel : Nat) →
      items.length < fuel → (target : List α) →
      (comma_separated (items.map Prod.fst) ++ .of close_delim :: rest).length < bound →
      consume_comma_separated_until close_delim item_name consumer_fn fuel true
          (comma_separated (items.map Prod.fst) ++ .of close_delim :: rest) target =
        items.mapM Prod.snd >>= fun values => .ok (target ++ values, rest)
  | [], _, fuel + 1, _, target, _ => by
    simp [comma_separated, consume_comma_separated_until, bind, Except.bind, pure, Except.pure]
  | [item], h, fuel + 2, _, target, hb => by
    obtain ⟨hn, hr⟩ := h item (List.mem_singleton_self item)
    have hb : (item.1 ++ .of close_delim :: rest).length < bound := by
      simpa [comma_separated] using hb
    have hs : (TokenIter.next (item.1 ++ .of close_delim :: rest)).isNone = false := by
      cases item.1 <;> rfl
    have hr := hr (.of close_delim :: rest) (.inr rfl) hb
    simp only [comma_separated, List.map_cons, List.map_nil, List.intersperse_singleton,
      List.flatten_cons, List.flatten_nil, List.append_nil, consume_comma_separated_until, hn, if_false,
      hs, Bool.not_true, Bool.or_self, Bool.false_eq_true, hr, List.mapM_cons, List.mapM_nil]
    cases item.2
    case error => rfl
    case ok =>
      simp [bind, Except.bind, pure, Except.pure, hc]
  | item :: item' :: items, h, fuel + 1, hf, target, hb => by
    obtain ⟨⟨hn, hr⟩, h⟩ := List.forall_mem_cons.mp h
    simp only [List.map_cons, comma_separated_cons, List.append_assoc, List.cons_append] at hb ⊢
    generalize hrest : comma_separated (item'.1 :: items.map Prod.fst) ++ .of close_delim :: rest =
      rest' at hb ⊢
    have hs : (TokenIter.next (item.1 ++ .of .comma :: rest')).isNone = false := by
      cases item.1 <;> rfl
    have hr := hr (.of .comma :: rest') (.inl rfl) hb
    have ih := fun value => consume_items hc item_name rest (item' :: items) h fuel
      (Nat.lt_of_succ_lt_succ hf) (target ++ [value]) (by
        rw [List.map_cons, hrest]
        simp only [List.length_append, List.length_cons] at hb
        omega)
    simp only [List.map_cons, hrest] at ih
    rw [consume_comma_separated_until, if_neg (hn _)]
    simp only [hs, Bool.not_true, Bool.or_self, Bool.false_eq_true, if_false, hr]
    rw [List.mapM_cons]
    cases item.2
    case error => rfl
    case ok value =>
      simp only [bind, Except.bind, TokenIter.next_cons, Token.kind_of, if_true,
        TokenIter.consume_cons] at ih ⊢
      rw [ih]
      cases List.mapM Prod.snd (item' :: items) <;> simp [pure, Except.pure]

-- A list between its delimiters.
theorem consume_comma_separated_items {open_delim : TokenKind} (hc : close_delim ≠ .comma)
    (item_name list_name : String) {items : List (List Token × Except Failure α)}
    (h : ∀ item ∈ items, ReadsItem consumer_fn close_delim bound item) {rest : TokenIter}
    (hb : (comma_separated (items.map Prod.fst) ++ .of close_delim :: rest).length < bound) :
    consume_comma_separated open_delim close_delim consumer_fn item_name list_name
        (.of open_delim :: (comma_separated (items.map Prod.fst) ++ .of close_delim :: rest)) =
      items.mapM Prod.snd >>= fun values => .ok (values, rest) := by
  have hl := length_le_comma_separated (items.map Prod.fst)
  rw [List.length_map] at hl
  simp only [consume_comma_separated, TokenIter.next_cons, Token.kind_of, if_true,
    TokenIter.consume_cons]
  rw [consume_items hc item_name rest items h _ _ [] hb]
  · simp
  · simp only [List.length_cons, List.length_append]
    omega

end

section

variable {definition_id : DefinitionId} {parser_type : List ParserTypeVariant} {tokens : List Token}

theorem TypeWritten.head (h : TypeWritten ctx definition_id parser_type tokens) :
    ∃ name tail, tokens = .ident name :: tail ∧
      (ctx.symbols.get_symbol_by_name (.module ctx.root_id) name).isSome = true := by
  cases h
  case explicit path num args name names _ hp hs =>
    have hg : ∀ tail, ∃ tail', glue_angles (path_tokens (name :: names) ++ tail) =
        .ident name :: tail' := by
      intro tail
      rw [glue_angles_path]
      cases names <;> exact ⟨_, rfl⟩
    match args with
    | [] =>
      obtain ⟨tail, he⟩ := hg []
      rw [List.append_nil] at he
      exact ⟨name, tail, by rw [TypeTree.print, hp, he], hs⟩
    | arg :: args =>
      obtain ⟨tail, he⟩ := hg (.of .openAngle :: (arg.print path ++ TypeTree.print_arguments path args))
      exact ⟨name, tail, by rw [TypeTree.print, hp, he], hs⟩
  case inferred num name names _ hs =>
    cases names <;> exact ⟨name, _, rfl, hs⟩

theorem TypeWritten.definition (h : TypeWritten ctx definition_id parser_type tokens) :
    ∃ num tail, parser_type = .definition definition_id num :: tail := by
  cases h
  case explicit num _ _ _ _ _ _ => exact ⟨num, _, rfl⟩
  case inferred num _ _ _ _ => exact ⟨num, _, rfl⟩

-- A type that is read back in front of anything that does not carry it on.
theorem TypeWritten.consumed (h : TypeWritten ctx definition_id parser_type tokens)
    {rest : TokenIter} (ho : rest.next ≠ some .openAngle) (hs : rest.next ≠ some .openSquare) :
    ∃ elements, consume_parser_type (ctx.type_ctx (.definition ctx.cur_definition)) 0
        (tokens ++ rest) = .ok (elements, rest) ∧ elements.map (·.variant) = parser_type := by
  cases h
  case explicit path num args name names hw _ _ =>
    have hr : (TypeTree.node (.definition definition_id num) args).ReadBack
        (ctx.type_ctx (.definition ctx.cur_definition)) path 0 rest := by
      cases he : (TypeTree.node (.definition definition_id num) args).is_explicit
      case false => exact TypeTree.readBack_implicit hw he (by simp) (fun _ => ho) (fun _ => hs)
      case true => exact TypeTree.readBack_explicit hw rfl he rest
    obtain ⟨elements, hc, he⟩ := hr
    rw [TypeTree.tokens, List.replicate_zero, List.append_nil] at hc
    exact ⟨elements, hc, he⟩
  case inferred num name names hn _ =>
    refine ⟨⟨.definition definition_id num, "::".intercalate (name :: names)⟩ ::
      List.replicate num ⟨.inferred, "::".intercalate (name :: names)⟩, ?_, by simp⟩
    have harrays : consume_arrays (rest.length + 1) [] rest = .ok ([], rest) := by
      simp [consume_arrays, hs]
    simp only [consume_parser_type, consume_parser_type_ident_path hn, bind, Except.bind, ho, if_false,
      harrays, consume_close_angles]
    simp [ExpressionCtx.type_ctx, ParserTypeVariant.num_embedded]

-- What follows a type at the start of an expression decides on the expression.
theorem TypeWritten.consume_primary (h : TypeWritten ctx definition_id parser_type tokens)
    (rec : Recursion) {rest : TokenIter} (ho : rest.next ≠ some .openAngle)
    (hs : rest.next ≠ some .openSquare) :
    consume_primary_expression ctx rec (tokens ++ rest) =
      consume_instantiation ctx rec parser_type rest := by
  obtain ⟨name, tail, he, hn⟩ := h.head
  obtain ⟨elements, hc, hv⟩ := h.consumed ho hs
  subst he
  simp only [List.cons_append] at hc
  simp only [consume_primary_expression, List.cons_append, TokenIter.next_cons, Token.kind_ident,
    consume_any_ident_ident, bind, Except.bind, hn, if_true, hc, hv]

end

namespace ExpressionTree

-- The literal that is read where one has been printed.
def read_literal : Literal → Except Failure Literal
  | .character _ => .error (.parseError "too many characters in character literal")
  | .string value => .ok (.string (String.ofList (escape '"' value.toList)))
  | value => .ok value

mutual

-- What is read where an expression has been printed.
def read : ExpressionTree → Except Failure ExpressionTree
  | assignment operation left right =>
    left.read >>= fun left => right.read >>= fun right => .ok (assignment operation left right)
  | conditional test true_expression false_expression =>
    test.read >>= fun test => true_expression.read >>= fun true_expression =>
      false_expression.read >>= fun false_expression =>
        .ok (conditional test true_expression false_expression)
  | binary operation left right =>
    left.read >>= fun left => right.read >>= fun right => .ok (binary operation left right)
  | unary operation expression =>
    expression.read >>= fun expression => .ok (unary operation expression)
  | indexing subject index =>
    subject.read >>= fun subject => index.read >>= fun index => .ok (indexing subject index)
  | slicing subject from_index to_index =>
    subject.read >>= fun subject => from_index.read >>= fun from_index =>
      to_index.read >>= fun to_index => .ok (slicing subject from_index to_index)
  | select subject field_name => subject.read >>= fun subject => .ok (select subject field_name)
  | literal value parser_type values =>
    read_literal value >>= fun value => read_values values >>= fun values =>
      .ok (literal value parser_type values)
  | expression => .ok expression

def read_values : List ExpressionTree → Except Failure (List ExpressionTree)
  | [] => .ok []
  | value :: values =>
    value.read >>= fun value => read_values values >>= fun values => .ok (value :: values)

end

section

variable {written : List ParserTypeVariant → List Token}

theorem print_values_eq : (values : List ExpressionTree) →
    print_values written values = values.map (print written)
  | [] => rfl
  | value :: values => by rw [print_values, print_values_eq values, List.map_cons]

theorem read_values_eq : (values : List ExpressionTree) → read_values values = values.mapM read
  | [] => rfl
  | value :: values => by
    rw [read_values, read_values_eq values, List.mapM_cons]
    rfl

-- What the induction over expressions proves: what is read at their own level and how they start.
structure Printed (ctx : ExpressionCtx) (written : List ParserTypeVariant → List Token)
    (expression : ExpressionTree) : Prop where
  starts : Starts expression.level (expression.print written)
  reads  : Reads ctx expression.level (expression.print written) expression.read
  chains : IsLoop expression.level →
    Chains ctx expression.level (expression.print written) expression.read

theorem level_bounds (expression : ExpressionTree) :
    1 ≤ expression.level ∧ expression.level ≤ 15 := by
  cases expression
  case binary operation _ _ =>
    have := binary_level_bounds operation
    simp only [level]
    omega
  all_goals simp [level, prefix_level, postfix_level]

namespace Printed

variable {expression : ExpressionTree} {level : Nat}

theorem enclosed_starts (h : Printed ctx written expression) (level : Nat) :
    Starts level (enclose (expression.level < level) (expression.print written)) := by
  by_cases hl : expression.level < level
  · simp only [enclose, hl, decide_true, if_true]
    exact ⟨.openParen, rfl, .inl (by simp)⟩
  · simp only [enclose, hl, decide_false, Bool.false_eq_true, if_false]
    exact h.starts.mono (Nat.le_of_not_lt hl)

theorem reads_one (h : Printed ctx written expression) :
    Reads ctx 1 (expression.print written) expression.read :=
  have hl := expression.level_bounds
  h.reads.lower h.starts (Nat.le_refl 1) hl.1 (Nat.le_trans hl.2 (by simp))

-- Where the level of a place does not allow for an expression, it is read between parentheses.
theorem enclosed_reads (h : Printed ctx written expression) (hpos : 1 ≤ level) (hl : level ≤ 16) :
    Reads ctx level (enclose (expression.level < level) (expression.print written))
      expression.read := by
  by_cases hlt : expression.level < level
  · simp only [enclose, hlt, decide_true, if_true]
    exact h.reads_one.parens.lower ⟨.openParen, rfl, .inl (by simp)⟩ hpos hl (Nat.le_refl 16)
  · simp only [enclose, hlt, decide_false, Bool.false_eq_true, if_false]
    exact h.reads.lower h.starts hpos (Nat.le_of_not_lt hlt)
      (Nat.le_trans expression.level_bounds.2 (by simp))

theorem enclosed_chains (h : Printed ctx written expression) (hloop : IsLoop level) :
    Chains ctx level (enclose (expression.level < level) (expression.print written))
      expression.read := by
  have hb := hloop.bounds
  match Nat.lt_trichotomy expression.level level with
  | .inl hlt =>
    simp only [enclose, hlt, decide_true, if_true]
    exact (h.reads_one.parens.lower ⟨.openParen, rfl, .inl (by simp)⟩ (by omega) (by omega)
      (Nat.le_refl 16)).chains hloop
  | .inr (.inl heq) =>
    subst heq
    simp only [enclose, Nat.lt_irrefl, decide_false, Bool.false_eq_true, if_false]
    exact h.chains hloop
  | .inr (.inr hgt) =>
    have hn : ¬expression.level < level := by omega
    simp only [enclose, hn, decide_false, Bool.false_eq_true, if_false]
    exact (h.reads.lower h.starts (by omega) hgt
      (Nat.le_trans expression.level_bounds.2 (by simp))).chains hloop

end Printed

theorem follow_item {rest : TokenIter} {close_delim : TokenKind}
    (hc : close_delim ∈ [TokenKind.closeParen, .closeCurly])
    (h : rest.next = some .comma ∨ rest.next = some close_delim) : Follow 1 rest := by
  intro kind hk
  simp only [List.mem_cons, List.not_mem_nil, or_false] at hc
  obtain rfl | rfl := hc <;> obtain h | h := h <;> cases h.symm.trans hk <;> decide

theorem Printed.readsItem {expression : ExpressionTree} (h : Printed ctx written expression)
    {close_delim : TokenKind} (hc : close_delim ∈ [TokenKind.closeParen, .closeCurly]) (fuel : Nat) :
    ReadsItem (recursion ctx fuel).consume_expression close_delim fuel
      (expression.print written, expression.read) :=
  ⟨fun rest => h.starts.next_ne rest hc,
    fun _ hr hb => h.reads_one.expression _ _ (follow_item hc hr) hb⟩

theorem Printed.readsItem_field {expression : ExpressionTree} (h : Printed ctx written expression)
    {field : Identifier} (hf : is_reserved_keyword field = false) (fuel : Nat) :
    ReadsItem (consume_struct_field (recursion ctx fuel)) .closeCurly fuel
      (.ident field :: .of .colon :: expression.print written,
        expression.read >>= fun value => .ok (field, value)) := by
  refine ⟨fun rest => by simp, fun rest hr hb => ?_⟩
  have he := h.reads_one.expression fuel rest (follow_item (by simp) hr) (by
    simp only [List.cons_append, List.length_cons] at hb
    omega)
  simp only [consume_struct_field, List.cons_append, consume_ident_ident hf, bind, Except.bind,
    consume_token_of] at he ⊢
  rw [he]
  cases expression.read <;> rfl

section

variable {values : List ExpressionTree} (hv : ∀ value ∈ values, Printed ctx written value)

include hv

theorem consume_values (open_delim close_delim : TokenKind)
    (hc : close_delim ∈ [TokenKind.closeParen, .closeCurly]) (item_name list_name : String)
    (fuel : Nat) (rest : TokenIter)
    (hb : (comma_separated (print_values written values) ++ .of close_delim :: rest).length < fuel) :
    consume_comma_separated open_delim close_delim (recursion ctx fuel).consume_expression item_name
        list_name (.of open_delim :: (comma_separated (print_values written values) ++
          .of close_delim :: rest)) =
      read_values values >>= fun values => .ok (values, rest) := by
  have hitems : ∀ item ∈ values.map fun value => (value.print written, value.read),
      ReadsItem (recursion ctx fuel).consume_expression close_delim fuel item := by
    intro item hm
    obtain ⟨value, hmem, he⟩ := List.mem_map.mp hm
    rw [← he]
    exact (hv value hmem).readsItem hc fuel
  have hne : close_delim ≠ .comma := by
    rintro rfl
    simp at hc
  have hp : print_values written values =
      (values.map fun value => (value.print written, value.read)).map Prod.fst := by
    rw [print_values_eq, List.map_map]
    rfl
  have hr : read_values values =
      (values.map fun value => (value.print written, value.read)).mapM Prod.snd := by
    rw [read_values_eq, List.mapM_map]
    rfl
  rw [hp] at hb ⊢
  rw [hr]
  exact consume_comma_separated_items hne item_name list_name hitems hb

end

theorem read_values_length {values values' : List ExpressionTree}
    (h : read_values values = .ok values') : values'.length = values.length := by
  induction values generalizing values'
  case nil =>
    cases h
    rfl
  case cons value values ih =>
    obtain ⟨_, _, h⟩ := Except.bind_eq_ok.mp h
    obtain ⟨_, hr, h⟩ := Except.bind_eq_ok.mp h
    cases h
    rw [List.length_cons, ih hr, List.length_cons]

-- The items of a struct literal, as they are printed and read.
def field_items (written : List ParserTypeVariant → List Token) (fields : List Identifier)
    (values : List ExpressionTree) :
    List (List Token × Except Failure (Identifier × ExpressionTree)) :=
  List.zipWith (fun field value => (.ident field :: .of .colon :: value.print written,
    value.read >>= fun value => .ok (field, value))) fields values

theorem print_field_items : (fields : List Identifier) → (values : List ExpressionTree) →
    (field_items written fields values).map Prod.fst =
      List.zipWith (fun field value => .ident field :: .of .colon :: value) fields
        (print_values written values)
  | [], _ => rfl
  | _ :: _, [] => rfl
  | field :: fields, value :: values => by
    simpa [field_items, print_values] using print_field_items fields values

theorem read_field_items : (fields : List Identifier) → (values : List ExpressionTree) →
    fields.length = values.length →
    (field_items written fields values).mapM Prod.snd =
      read_values values >>= fun values => .ok (fields.zip values)
  | [], [], _ => rfl
  | field :: fields, value :: values, h => by
    have ih := read_field_items fields values (Nat.succ.inj h)
    simp only [field_items, List.zipWith_cons_cons, List.mapM_cons, read_values] at ih ⊢
    rw [ih]
    cases value.read
    case error => rfl
    case ok => cases read_values values <;> rfl

theorem consume_fields {fields : List Identifier} {values : List ExpressionTree}
    (hv : ∀ value ∈ values, Printed ctx written value)
    (hf : ∀ field ∈ fields, is_reserved_keyword field = false)
    (hl : fields.length = values.length) (fuel : Nat) (rest : TokenIter)
    (hb : (comma_separated (List.zipWith (fun field value => .ident field :: .of .colon :: value) fields
      (print_values written values)) ++ .of .closeCurly :: rest).length < fuel) :
    consume_comma_separated .openCurly .closeCurly (consume_struct_field (recursion ctx fuel))
        "a struct field" "a list of struct fields"
        (.of .openCurly :: (comma_separated
          (List.zipWith (fun field value => .ident field :: .of .colon :: value) fields
            (print_values written values)) ++ .of .closeCurly :: rest)) =
      read_values values >>= fun values => .ok (fields.zip values, rest) := by
  have hitems : ∀ item ∈ field_items written fields values,
      ReadsItem (consume_struct_field (recursion ctx fuel)) .closeCurly fuel item := by
    intro item hm
    obtain ⟨idx, hi, he⟩ := List.getElem_of_mem hm
    simp only [field_items, List.getElem_zipWith] at he
    subst he
    exact (hv _ (List.getElem_mem _)).readsItem_field (hf _ (List.getElem_mem _)) fuel
  rw [← print_field_items] at hb ⊢
  rw [consume_comma_separated_items (by simp) _ _ hitems hb, read_field_items fields values hl]
  cases read_values values <;> rfl

theorem reads_keyword {text : Identifier} {result : ExpressionTree}
    (hs : ctx.symbols.get_symbol_by_name (.module ctx.root_id) text = none)
    (hk : ∀ rec iter, consume_keyword_or_variable ctx rec text iter = .ok (result, iter)) :
    Reads ctx 16 [.ident text] (.ok result) := by
  intro fuel rest _ _
  simp [at_level_primary, consume_primary_expression, bind, Except.bind, hs, hk]

theorem reads_variable {text : Identifier} (hr : is_reserved_keyword text = false)
    (hs : ctx.symbols.get_symbol_by_name (.module ctx.root_id) text = none) :
    Reads ctx 16 [.ident text] (.ok (.variable text)) := by
  intro fuel rest hf _
  have hne : ∀ keyword ∈ ["null", "true", "false", "let", "cast"], text ≠ keyword := by
    rintro keyword hk rfl
    simp only [List.mem_cons, List.not_mem_nil, or_false] at hk
    obtain rfl | rfl | rfl | rfl | rfl := hk <;> exact absurd hr (by decide)
  simp only [List.forall_mem_cons, List.not_mem_nil, false_implies, implies_true, and_true] at hne
  obtain ⟨hnull, htrue, hfalse, hlet, hcast⟩ := hne
  simp only [at_level_primary, consume_primary_expression, List.cons_append, List.nil_append,
    TokenIter.next_cons, Token.kind_ident, consume_any_ident_ident, bind, Except.bind, hs,
    Option.isSome_none, Bool.false_eq_true, if_false, consume_keyword_or_variable, hnull, htrue,
    hfalse, hlet, hcast]
  split
  case h_4 => rfl
  all_goals exact absurd (hf _ ‹_›) (by decide)

-- A literal is read as a primary expression.
theorem reads_literal {value : Literal} {parser_type : List ParserTypeVariant}
    {values : List ExpressionTree} (h : LiteralWritten ctx written value parser_type values.length)
    (hv : ∀ value ∈ values, Printed ctx written value) :
    Reads ctx 16 ((ExpressionTree.literal value parser_type values).print written)
      (ExpressionTree.literal value parser_type values).read := by
  have hnil : ∀ {n}, n = values.length → n = 0 → values = [] := fun h h₀ =>
    List.length_eq_zero_iff.mp (h.symm.trans h₀)
  generalize hn : values.length = num at h
  rw [print, read]
  match value, parser_type, num, h, hn with
  | _, _, _, .null hs, hn =>
    rw [hnil hn.symm rfl]
    exact reads_keyword hs (fun _ _ => rfl)
  | _, _, _, .true hs, hn =>
    rw [hnil hn.symm rfl]
    exact reads_keyword hs (fun _ _ => rfl)
  | _, _, _, .false hs, hn =>
    rw [hnil hn.symm rfl]
    exact reads_keyword hs (fun _ _ => rfl)
  | _, _, _, @LiteralWritten.character _ _ value ha, hn =>
    intro fuel rest _ _
    simp [at_level_primary, consume_primary_expression, print_literal, read_literal,
      consume_character_literal_quoted ha, bind, Except.bind]
  | _, _, _, @LiteralWritten.string _ _ value ha, hn =>
    intro fuel rest _ _
    rw [hnil hn.symm rfl]
    simp [at_level_primary, consume_primary_expression, print_literal, read_literal, read_values,
      consume_string_literal_quoted ha, bind, Except.bind]
  | _, _, _, @LiteralWritten.integer _ _ value, hn =>
    intro fuel rest _ _
    rw [hnil hn.symm rfl]
    simp only [at_level_primary, consume_primary_expression, print_literal, List.cons_append,
      List.nil_append, TokenIter.next_cons, consume_integer_literal_toString]
    rfl
  | _, _, _, .array, hn =>
    intro fuel rest _ hb
    have hc := consume_values hv .openCurly .closeCurly (by simp)
      "an expression" "a list of expressions" fuel rest
      (by simp [print_literal] at hb ⊢; omega)
    simp only [at_level_primary, consume_primary_expression, print_literal, List.cons_append,
      List.append_assoc, List.nil_append, TokenIter.next_cons, Token.kind_of, hc, read_literal]
    cases read_values values <;> rfl
  | _, _, _, @LiteralWritten.struct _ _ definition fields parser_type hclass ht hf, hn =>
    intro fuel rest _ hb
    obtain ⟨num, tail, he⟩ := ht.definition
    have hc := consume_fields hv hf hn.symm fuel rest
      (by simp [print_literal] at hb ⊢; omega)
    simp only [at_level_primary, print_literal, List.append_assoc, List.cons_append, List.nil_append]
    rw [ht.consume_primary _ (by simp) (by simp)]
    subst he
    simp only [consume_instantiation, hclass, hc, read_literal]
    match hr : read_values values with
    | .error _ => rfl
    | .ok values' =>
      have hl : fields.length = values'.length := by rw [read_values_length hr, hn]
      simp [bind, Except.bind, List.map_fst_zip (Nat.le_of_eq hl),
        List.map_snd_zip (Nat.le_of_eq hl.symm)]
  | _, _, _, @LiteralWritten.enum _ _ definition «variant» parser_type hclass ht hk, hn =>
    intro fuel rest _ _
    obtain ⟨num, tail, he⟩ := ht.definition
    rw [hnil hn.symm rfl]
    simp only [at_level_primary, print_literal, List.append_assoc, List.cons_append, List.nil_append]
    rw [ht.consume_primary _ (by simp) (by simp)]
    subst he
    simp [consume_instantiation, hclass, read_literal, read_values, consume_ident_ident hk, bind,
      Except.bind]
  | _, _, _, @LiteralWritten.union _ _ definition «variant» parser_type _ hclass ht hk, hn =>
    intro fuel rest hfollow hb
    obtain ⟨num, tail, he⟩ := ht.definition
    obtain _ | ⟨value, values⟩ := values
    · have hp : rest.next ≠ some .openParen := fun h => absurd (hfollow _ h) (by decide)
      simp only [at_level_primary, print_literal, print_values, List.isEmpty_nil, if_true, List.append_assoc,
        List.cons_append, List.nil_append]
      rw [ht.consume_primary _ (by simp) (by simp)]
      subst he
      simp [consume_instantiation, hclass, read_literal, read_values, consume_ident_ident hk, bind,
        Except.bind, hp]
    · have hc := consume_values hv .openParen .closeParen (by simp)
        "an expression" "a list of expressions" fuel rest
        (by simp [print_literal, print_values] at hb ⊢; omega)
      have hne : (print_values written (value :: values)).isEmpty = false := rfl
      simp only [at_level_primary, print_literal, hne, Bool.false_eq_true, if_false, List.append_assoc,
        List.cons_append, List.nil_append]
      rw [ht.consume_primary _ (by simp) (by simp)]
      subst he
      simp only [consume_instantiation, hclass, read_literal, consume_token_of,
        consume_ident_ident hk, bind, Except.bind, TokenIter.next_cons, Token.kind_of, if_true,
        consume_expression_list] at hc ⊢
      rw [hc]
      cases read_values (value :: values) <;> rfl

-- An expression that starts with a postfix expression and is one itself.
theorem Printed.of_chains {expression : ExpressionTree} (hl : expression.level = postfix_level)
    {tokens tail : List Token} (hs : Starts postfix_level tokens)
    (he : expression.print written = tokens ++ tail)
    (h : Chains ctx postfix_level (expression.print written) expression.read) :
    Printed ctx written expression where
  starts := by
    rw [hl, he]
    exact hs.append tail
  reads := by
    rw [hl]
    exact h.reads .suffixes
  chains _ := by rwa [hl]

theorem reads_literal_starts {value : Literal} {parser_type : List ParserTypeVariant} {num : Nat}
    (h : LiteralWritten ctx written value parser_type num) (values : List (List Token)) :
    Starts postfix_level (print_literal written parser_type values value) := by
  have hw : ∀ {definition tail}, TypeWritten ctx definition parser_type (written parser_type) →
      Starts postfix_level (written parser_type ++ tail) := by
    intro definition tail ht
    obtain ⟨name, tail', he, _⟩ := ht.head
    rw [he]
    exact ⟨.ident, rfl, .inl (by simp)⟩
  cases h
  case null | true | false => exact ⟨.ident, rfl, .inl (by simp)⟩
  case character => exact ⟨.character, rfl, .inl (by simp)⟩
  case string => exact ⟨.string, rfl, .inl (by simp)⟩
  case integer => exact ⟨.integer, rfl, .inl (by simp)⟩
  case array => exact ⟨.openCurly, rfl, .inl (by simp)⟩
  case struct ht =>
    rw [print_literal, List.append_assoc]
    exact hw ht
  case enum ht => exact hw ht
  case union ht => exact hw ht

-- Every expression of the fragment is read at its level.
theorem Fragment.printed {expression : ExpressionTree} (h : expression.Fragment ctx written) :
    Printed ctx written expression := by
  induction h
  case assignment operation left right _ _ ihl ihr =>
    refine ⟨((ihl.enclosed_starts operand_level).mono (by simp [level, operand_level])).append _, ?_,
      fun hl => absurd hl.bounds.1 (by simp [level])⟩
    exact ((ihl.enclosed_reads (by decide) (by decide)).lower (ihl.enclosed_starts operand_level)
      (by decide) (by decide) (by decide)).assignment ihr.reads_one
  case conditional test true_expression false_expression _ _ _ iht iha ihb =>
    refine ⟨((iht.enclosed_starts operand_level).mono (by simp [level, operand_level])).append _, ?_,
      fun hl => absurd hl.bounds.1 (by simp [level])⟩
    exact (iht.enclosed_reads (by decide) (by decide)).conditional iha.reads_one ihb.reads_one
  case binary operation left right _ _ ihl ihr =>
    have hb := binary_level_bounds operation
    have hr := ihr.enclosed_reads (binary_level operation).succ_pos (by omega)
    have hc := (ihl.enclosed_chains (.binary operation)).binary hr
    exact ⟨(ihl.enclosed_starts _).append _, hc.reads (.binary operation), fun _ => hc⟩
  case unary operation expression _ ih =>
    exact ⟨⟨unary_token operation, rfl, .inr ⟨Nat.le_refl _, operation, rfl⟩⟩,
      (ih.enclosed_reads (by decide) (by decide)).unary, fun hl => absurd hl not_isLoop_prefix⟩
  case indexing subject index _ _ ihs ihi =>
    exact .of_chains rfl (ihs.enclosed_starts postfix_level) rfl
      ((ihs.enclosed_chains .suffixes).indexing ihi.reads_one)
  case slicing subject from_index to_index _ _ _ ihs ihf iht =>
    exact .of_chains rfl (ihs.enclosed_starts postfix_level) rfl
      ((ihs.enclosed_chains .suffixes).slicing ihf.reads_one iht.reads_one)
  case select subject field_name _ hn ihs =>
    exact .of_chains rfl (ihs.enclosed_starts postfix_level) rfl
      ((ihs.enclosed_chains .suffixes).select hn)
  case literal value parser_type values hw _ ih =>
    exact .of_chains rfl (reads_literal_starts hw (print_values written values))
      (List.append_nil _).symm ((reads_literal hw ih).chains .suffixes)
  case «variable» identifier hr hs =>
    have hs' : Starts postfix_level [.ident identifier] := ⟨.ident, rfl, .inl (by simp)⟩
    exact .of_chains rfl hs' (List.append_nil _).symm ((reads_variable hr hs).chains .suffixes)

-- The parser of expressions reads what has been printed and nothing more.
theorem Fragment.consumed {expression : ExpressionTree} (h : expression.Fragment ctx written)
    {rest : TokenIter} (hr : Follow 1 rest) :
    consume_expression ctx (expression.print written ++ rest) =
      expression.read >>= fun expression => .ok (expression, rest) :=
  h.printed.reads_one.expression _ rest hr (Nat.lt_succ_self _)

end

theorem read_literal_eq : (value : Literal) → (read_literal value = .ok value ↔ value_plain value)
  | .string value => by
    have he : String.ofList (escape '"' value.toList) = value ↔
        escape '"' value.toList = value.toList :=
      ⟨fun h => by rw [← String.toList_ofList (l := escape '"' value.toList), h],
        fun h => by rw [h, String.ofList_toList]⟩
    simp [read_literal, value_plain, he, escape_eq_self]
  | .character _ => by simp [read_literal, value_plain]
  | .null | .true | .false | .integer _ | .struct .. | .enum .. | .union .. | .array => by
    simp [read_literal, value_plain]

section

variable {written : List ParserTypeVariant → List Token}

theorem read_values_ok : {values : List ExpressionTree} →
    (∀ value ∈ values, value.read = .ok value ↔ value.Plain) →
    (read_values values = .ok values ↔ AllPlain values)
  | [], _ => by simp [read_values, AllPlain]
  | value :: values, h => by
    obtain ⟨hv, h⟩ := List.forall_mem_cons.mp h
    simp [read_values, AllPlain, Except.bind_eq_ok, hv, read_values_ok h]

-- The same expression is read exactly if there is nothing in it that the parser spoils.
theorem Fragment.read_eq {expression : ExpressionTree} (h : expression.Fragment ctx written) :
    expression.read = .ok expression ↔ expression.Plain := by
  induction h
  case assignment ihl ihr => simp [read, Plain, Except.bind_eq_ok, ihl, ihr]
  case conditional iht iha ihb => simp [read, Plain, Except.bind_eq_ok, iht, iha, ihb]
  case binary ihl ihr => simp [read, Plain, Except.bind_eq_ok, ihl, ihr]
  case unary ih => simp [read, Plain, Except.bind_eq_ok, ih]
  case indexing ihs ihi => simp [read, Plain, Except.bind_eq_ok, ihs, ihi]
  case slicing ihs ihf iht => simp [read, Plain, Except.bind_eq_ok, ihs, ihf, iht]
  case select ihs => simp [read, Plain, Except.bind_eq_ok, ihs]
  case literal value _ _ _ _ ih =>
    simp [read, Plain, Except.bind_eq_ok, ← read_literal_eq value, read_values_ok ih]
  case «variable» => simp [read, Plain]

-- An expression is read back, up to the last of its tokens, exactly if it has neither a character
-- literal nor a string literal with characters that have to be escaped.
theorem consume_expression_print {expression : ExpressionTree}
    (h : expression.Fragment ctx written) {rest : TokenIter} (hr : Follow 1 rest) :
    consume_expression ctx (expression.print written ++ rest) = .ok (expression, rest) ↔
      expression.Plain := by
  rw [h.consumed hr, ← h.read_eq]
  cases expression.read <;> simp [bind, Except.bind]

end

-- A module without symbols of its own.
def empty_ctx : ExpressionCtx where
  symbols        := .new
  root_id        := 0
  definitions _  := ⟨"", .function, false, []⟩
  cur_definition := 0

-- In place of the character literal `'a'` the parser fails.
theorem character_not_read :
    (literal (.character 'a') [] []).Fragment empty_ctx (fun _ => []) ∧
      consume_expression empty_ctx ((literal (.character 'a') [] []).print (fun _ => [])) =
        .error (.parseError "too many characters in character literal") := by
  exact ⟨.literal (.character (by decide)) (by simp), rfl⟩

-- The expression `x = a - (b - c) * (y ? d : e)[0].f`.
def nested : ExpressionTree :=
  .assignment .set (.variable "x") (.binary .subtract (.variable "a")
    (.binary .multiply (.binary .subtract (.variable "b") (.variable "c"))
      (.select (.indexing (.conditional (.variable "y") (.variable "d") (.variable "e"))
        (.literal (.integer 0) [] [])) "f")))

example : nested.print (fun _ => []) =
    [.ident "x", .of .equal, .ident "a", .of .minus, .of .openParen, .ident "b", .of .minus,
      .ident "c", .of .closeParen, .of .star, .of .openParen, .ident "y", .of .question, .ident "d",
      .of .colon, .ident "e", .of .closeParen, .of .openSquare, ⟨.integer, "0", ""⟩,
      .of .closeSquare, .of .dot, .ident "f"] :=
  rfl

theorem nested_fragment : nested.Fragment empty_ctx (fun _ => []) := by
  have hv : ∀ {identifier}, is_reserved_keyword identifier = false →
      (ExpressionTree.variable identifier).Fragment empty_ctx (fun _ => []) := (.variable · rfl)
  refine .assignment (hv ?_) (.binary (hv ?_) (.binary (.binary (hv ?_) (hv ?_))
    (.select (.indexing (.conditional (hv ?_) (hv ?_) (hv ?_)) (.literal .integer ?_)) ?_)))
  case refine_8 => simp
  all_goals rfl

theorem consume_expression_print_nested :
    consume_expression empty_ctx (nested.print (fun _ => []) ++ [.of .semiColon]) =
      .ok (nested, [.of .semiColon]) :=
  (consume_expression_print nested_fragment (follow_cons (by decide) [])).mpr
    (by simp [nested, Plain, AllPlain, value_plain])

end ExpressionTree

end Reowolf.Parser
