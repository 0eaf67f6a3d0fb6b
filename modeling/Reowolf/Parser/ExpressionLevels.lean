import Reowolf.Parser.ExpressionSyntax

namespace Reowolf.Parser

variable {ctx : ExpressionCtx}

theorem Follow.mono {level level' : Nat} {rest : TokenIter} (h : Follow level rest)
    (hl : level ≤ level') : Follow level' rest :=
  fun kind hk => Nat.lt_of_lt_of_le (h kind hk) hl

theorem follow_cons {token : Token} {level : Nat} (h : kind_level token.kind < level)
    (rest : TokenIter) : Follow level (token :: rest) := by
  intro kind hk
  cases hk
  exact h

-- The function of the source that parses a level of expressions.
def at_level (ctx : ExpressionCtx) (rec : Recursion) : Nat → ExpressionConsumer
  | 1  => consume_assignment_expression ctx rec
  | 2  => consume_conditional_expression ctx rec
  | 3  => consume_concat_expression ctx rec
  | 4  => consume_logical_or_expression ctx rec
  | 5  => consume_logical_and_expression ctx rec
  | 6  => consume_bitwise_or_expression ctx rec
  | 7  => consume_bitwise_xor_expression ctx rec
  | 8  => consume_bitwise_and_expression ctx rec
  | 9  => consume_equality_expression ctx rec
  | 10 => consume_relational_expression ctx rec
  | 11 => consume_shift_expression ctx rec
  | 12 => consume_add_or_subtract_expression ctx rec
  | 13 => consume_multiply_divide_or_modulus_expression ctx rec
  | 14 => consume_prefix_expression ctx rec
  | 15 => consume_postfix_expression ctx rec
  | _  => consume_primary_expression ctx rec

section

variable (ctx : ExpressionCtx) (rec : Recursion)

theorem at_level_assignment : at_level ctx rec 1 = consume_assignment_expression ctx rec := rfl

theorem at_level_conditional : at_level ctx rec 2 = consume_conditional_expression ctx rec := rfl

theorem at_level_concat : at_level ctx rec 3 = consume_concat_expression ctx rec := rfl

theorem at_level_unary : at_level ctx rec 14 = consume_prefix_expression ctx rec := rfl

theorem at_level_suffix : at_level ctx rec 15 = consume_postfix_expression ctx rec := rfl

theorem at_level_primary : at_level ctx rec 16 = consume_primary_expression ctx rec := rfl

end

def operator_at : Nat → Option TokenKind → Option BinaryOperator
  | 3  => concat_operator
  | 4  => logical_or_operator
  | 5  => logical_and_operator
  | 6  => bitwise_or_operator
  | 7  => bitwise_xor_operator
  | 8  => bitwise_and_operator
  | 9  => equality_operator
  | 10 => relational_operator
  | 11 => shift_operator
  | 12 => add_or_subtract_operator
  | 13 => multiply_divide_or_modulus_operator
  | _  => fun _ => none

-- The levels that are parsed by a loop behind an expression of the next level.
inductive IsLoop : Nat → Prop
  | binary (operation : BinaryOperator) : IsLoop (binary_level operation)
  | suffixes : IsLoop 15

def loop_at (ctx : ExpressionCtx) (rec : Recursion) (level fuel : Nat) :
    ExpressionTree → ExpressionConsumer :=
  if level = 15 then consume_postfixes rec fuel
  else consume_right_operands (operator_at level) (at_level ctx rec (level + 1)) fuel

theorem binary_level_ne (operation : BinaryOperator) : binary_level operation ≠ 15 := by
  cases operation <;> simp [binary_level]

theorem binary_level_bounds (operation : BinaryOperator) :
    3 ≤ binary_level operation ∧ binary_level operation ≤ 13 := by
  cases operation <;> simp [binary_level]

theorem isLoop_of_bounds {level : Nat} (h₁ : 3 ≤ level) (h₂ : level ≤ 13) : IsLoop level := by
  have h : level ∈ [3, 4, 5, 6, 7, 8, 9, 10, 11, 12, 13] := by
    simp only [List.mem_cons, List.not_mem_nil]
    omega
  simp only [List.mem_cons, List.not_mem_nil, or_false] at h
  obtain rfl | rfl | rfl | rfl | rfl | rfl | rfl | rfl | rfl | rfl | rfl := h
  exacts [.binary .concatenate, .binary .logicalOr, .binary .logicalAnd, .binary .bitwiseOr,
    .binary .bitwiseXor, .binary .bitwiseAnd, .binary .equality, .binary .lessThan,
    .binary .shiftLeft, .binary .add, .binary .multiply]

theorem IsLoop.bounds {level : Nat} (h : IsLoop level) : 3 ≤ level ∧ level ≤ 15 := by
  cases h
  case binary operation =>
    have := binary_level_bounds operation
    omega
  case suffixes => simp

theorem not_isLoop_prefix : ¬IsLoop prefix_level := by
  intro h
  generalize hl : prefix_level = level at h
  cases h
  case binary operation =>
    have := binary_level_bounds operation
    simp only [prefix_level] at hl
    omega
  case suffixes => cases hl

theorem kind_level_binary (operation : BinaryOperator) :
    kind_level (binary_token operation) = binary_level operation := by
  cases operation <;> rfl

theorem kind_level_assignment (operation : AssignmentOperator) :
    kind_level (assignment_token operation) = 1 := by
  cases operation <;> rfl

theorem operator_at_binary (operation : BinaryOperator) :
    operator_at (binary_level operation) (some (binary_token operation)) = some operation := by
  cases operation <;> rfl

theorem parse_assignment_operator_token (operation : AssignmentOperator) :
    parse_assignment_operator (some (assignment_token operation)) = some operation := by
  cases operation <;> rfl

theorem parse_prefix_token_unary (operation : UnaryOperator) :
    parse_prefix_token (some (unary_token operation)) = some operation := by
  cases operation <;> rfl

-- Tokens that are not those of a level are no operators of it.
theorem operator_at_of_ne {level : Nat} {kind : TokenKind} (h : kind_level kind ≠ level) :
    operator_at level (some kind) = none := by
  unfold operator_at
  split
  case h_12 => rfl
  all_goals cases kind <;> first | rfl | exact absurd rfl h

theorem operator_at_none (level : Nat) : operator_at level none = none := by
  unfold operator_at
  split <;> rfl

theorem operator_at_follow {level : Nat} {rest : TokenIter} (h : Follow level rest) :
    operator_at level rest.next = none := by
  match hn : rest.next with
  | none => exact operator_at_none level
  | some kind => exact operator_at_of_ne (Nat.ne_of_lt (h kind hn))

theorem parse_assignment_operator_follow {rest : TokenIter} (h : Follow 1 rest) :
    parse_assignment_operator rest.next = none := by
  match hn : rest.next with
  | none => rfl
  | some kind =>
    have hlt := h kind hn
    cases kind <;> first | rfl | exact absurd hlt (Nat.lt_irrefl 1)

theorem at_level_loop {level : Nat} (h : IsLoop level) (rec : Recursion) (iter : TokenIter) :
    at_level ctx rec level iter = (at_level ctx rec (level + 1) iter >>= fun (result, iter) =>
      loop_at ctx rec level (iter.length + 1) result iter) := by
  cases h
  case binary operation => cases operation <;> rfl
  case suffixes => rfl

theorem loop_at_stop {level : Nat} (hl : IsLoop level) {rest : TokenIter} (h : Follow level rest)
    (rec : Recursion) {fuel : Nat} (hf : rest.length < fuel) (expression : ExpressionTree) :
    loop_at ctx rec level fuel expression rest = .ok (expression, rest) := by
  match fuel, hf with
  | fuel + 1, _ =>
    cases hl
    case binary operation =>
      simp [loop_at, binary_level_ne, consume_right_operands, operator_at_follow h]
    case suffixes =>
      simp only [loop_at, if_true, consume_postfixes]
      split
      case h_5 => rfl
      all_goals
        have hlt := h _ ‹_›
        exact absurd hlt (Nat.lt_irrefl 15)

-- What a level makes of tokens, whatever comes next that does not carry on an expression: an
-- expression or a failure.
def Reads (ctx : ExpressionCtx) (level : Nat) (tokens : List Token)
    (result : Except Failure ExpressionTree) : Prop :=
  ∀ fuel rest, Follow level rest → (tokens ++ rest).length ≤ fuel →
    at_level ctx (recursion ctx fuel) level (tokens ++ rest) =
      result >>= fun expression => .ok (expression, rest)

-- The same with what comes next left to the loop of the level.
def Chains (ctx : ExpressionCtx) (level : Nat) (tokens : List Token)
    (result : Except Failure ExpressionTree) : Prop :=
  ∀ fuel rest, Follow (level + 1) rest → (tokens ++ rest).length ≤ fuel →
    ∃ loop_fuel, rest.length < loop_fuel ∧
      at_level ctx (recursion ctx fuel) level (tokens ++ rest) =
        result >>= fun expression =>
          loop_at ctx (recursion ctx fuel) level loop_fuel expression rest

section

variable {level : Nat} {tokens tokens' : List Token}
  {result result' : Except Failure ExpressionTree}

theorem Reads.expression (h : Reads ctx 1 tokens result) (fuel : Nat) (rest : TokenIter)
    (hr : Follow 1 rest) (hf : (tokens ++ rest).length < fuel) :
    (recursion ctx fuel).consume_expression (tokens ++ rest) =
      result >>= fun expression => .ok (expression, rest) := by
  match fuel, hf with
  | fuel + 1, hf => exact h fuel rest hr (Nat.le_of_lt_succ hf)

theorem Reads.prefix_expression (h : Reads ctx prefix_level tokens result) (fuel : Nat)
    (rest : TokenIter) (hr : Follow prefix_level rest) (hf : (tokens ++ rest).length < fuel) :
    (recursion ctx fuel).consume_prefix_expression (tokens ++ rest) =
      result >>= fun expression => .ok (expression, rest) := by
  match fuel, hf with
  | fuel + 1, hf => exact h fuel rest hr (Nat.le_of_lt_succ hf)

theorem Chains.reads (hl : IsLoop level) (h : Chains ctx level tokens result) :
    Reads ctx level tokens result := by
  intro fuel rest hr hf
  obtain ⟨loop_fuel, hlf, he⟩ := h fuel rest (hr.mono (Nat.le_succ level)) hf
  rw [he]
  congr 1
  funext expression
  exact loop_at_stop hl hr _ hlf expression

theorem Reads.chains (hl : IsLoop level) (h : Reads ctx (level + 1) tokens result) :
    Chains ctx level tokens result := by
  intro fuel rest hr hf
  exists rest.length + 1, Nat.lt_succ_self _
  rw [at_level_loop hl, h fuel rest hr hf]
  cases result <;> rfl

-- A binary operator takes an expression of its own level to the left and one of the next to the right.
theorem Chains.binary {operation : BinaryOperator}
    (h : Chains ctx (binary_level operation) tokens result)
    (h' : Reads ctx (binary_level operation + 1) tokens' result') :
    Chains ctx (binary_level operation) (tokens ++ .of (binary_token operation) :: tokens')
      (do .ok (.binary operation (← result) (← result'))) := by
  intro fuel rest hr hf
  have hf' : (tokens ++ Token.of (binary_token operation) :: (tokens' ++ rest)).length ≤ fuel := by
    simpa using hf
  obtain ⟨loop_fuel, hlf, he⟩ := h fuel (.of (binary_token operation) :: (tokens' ++ rest))
    (follow_cons (by simp [kind_level_binary]) _) hf'
  match loop_fuel, hlf with
  | loop_fuel + 1, hlf =>
    refine ⟨loop_fuel, by simp at hlf; omega, ?_⟩
    have hr' := h' fuel rest hr (by simp at hf ⊢; omega)
    rw [List.append_assoc, List.cons_append, he]
    match result with
    | .error _ => rfl
    | .ok left =>
      simp only [bind, Except.bind, loop_at, binary_level_ne, if_false, consume_right_operands,
        TokenIter.next_cons, Token.kind_of, operator_at_binary, TokenIter.consume_cons, hr']
      cases result' <;> rfl

end

section

variable {rec : Recursion} {tokens tokens' : List Token} {rest : TokenIter}
  {result result' : Except Failure ExpressionTree}

theorem consume_postfixes_index
    (h : rec.consume_expression (tokens ++ .of .closeSquare :: rest) =
      result >>= fun index => .ok (index, .of .closeSquare :: rest))
    (fuel : Nat) (subject : ExpressionTree) :
    consume_postfixes rec (fuel + 1) subject
        (.of .openSquare :: (tokens ++ .of .closeSquare :: rest)) =
      result >>= fun index => consume_postfixes rec fuel (.indexing subject index) rest := by
  change rec.consume_expression (tokens ++ .of .closeSquare :: rest) >>= _ = _
  rw [h]
  cases result <;> rfl

theorem consume_postfixes_slice
    (h : rec.consume_expression (tokens ++ .of .dotDot :: (tokens' ++ .of .closeSquare :: rest)) =
      result >>= fun from_index =>
        .ok (from_index, .of .dotDot :: (tokens' ++ .of .closeSquare :: rest)))
    (h' : rec.consume_expression (tokens' ++ .of .closeSquare :: rest) =
      result' >>= fun to_index => .ok (to_index, .of .closeSquare :: rest))
    (fuel : Nat) (subject : ExpressionTree) :
    consume_postfixes rec (fuel + 1) subject
        (.of .openSquare :: (tokens ++ .of .dotDot :: (tokens' ++ .of .closeSquare :: rest))) =
      result >>= fun from_index => result' >>= fun to_index =>
        consume_postfixes rec fuel (.slicing subject from_index to_index) rest := by
  change rec.consume_expression (tokens ++ .of .dotDot :: _) >>= _ = _
  rw [h]
  cases result
  case error => rfl
  case ok =>
    change rec.consume_expression (tokens' ++ .of .closeSquare :: rest) >>= _ = result' >>= _
    rw [h']
    cases result' <;> rfl

theorem consume_postfixes_select {field_name : Identifier}
    (h : is_reserved_keyword field_name = false) (fuel : Nat) (subject : ExpressionTree) :
    consume_postfixes rec (fuel + 1) subject (.of .dot :: .ident field_name :: rest) =
      consume_postfixes rec fuel (.select subject field_name) rest := by
  change consume_ident (.ident field_name :: rest) >>= _ = _
  rw [consume_ident_ident h]
  rfl

end

-- A suffix is one round of the loop behind its subject.
theorem Chains.suffix {tokens suffix : List Token} {result : Except Failure ExpressionTree}
    {f : ExpressionTree → Except Failure ExpressionTree} (h : Chains ctx postfix_level tokens result)
    (hs : ∀ rest, Follow (postfix_level + 1) (suffix ++ rest))
    (hr : ∀ {fuel rest}, (suffix ++ rest).length ≤ fuel → ∀ loop_fuel subject,
      consume_postfixes (recursion ctx fuel) (loop_fuel + 1) subject (suffix ++ rest) =
        f subject >>= fun expression =>
          consume_postfixes (recursion ctx fuel) loop_fuel expression rest)
    (hl : suffix ≠ []) : Chains ctx postfix_level (tokens ++ suffix) (result >>= f) := by
  intro fuel rest _ hf
  rw [List.append_assoc] at hf ⊢
  obtain ⟨loop_fuel, hlf, he⟩ := h fuel (suffix ++ rest) (hs rest) hf
  have hpos := List.length_pos_iff.mpr hl
  simp only [List.length_append] at hlf hf
  match loop_fuel, hlf with
  | loop_fuel + 1, hlf =>
    refine ⟨loop_fuel, by omega, ?_⟩
    rw [he]
    cases result
    case error => rfl
    case ok subject => exact hr (by simp only [List.length_append]; omega) loop_fuel subject

section

variable {tokens tokens' tokens'' : List Token}
  {result result' result'' : Except Failure ExpressionTree}

theorem Chains.indexing (h : Chains ctx postfix_level tokens result)
    (h' : Reads ctx 1 tokens' result') :
    Chains ctx postfix_level (tokens ++ .of .openSquare :: (tokens' ++ [.of .closeSquare]))
      (result >>= fun subject => result' >>= fun index => .ok (.indexing subject index)) := by
  refine h.suffix (fun _ => follow_cons (by decide) _) (fun {fuel rest} hf loop_fuel subject => ?_)
    (by simp)
  have he := h'.expression fuel (.of .closeSquare :: rest)
    (follow_cons (by decide) _) (by simp at hf ⊢; omega)
  simp only [List.cons_append, List.append_assoc, List.nil_append]
  rw [consume_postfixes_index he]
  cases result' <;> rfl

theorem Chains.slicing (h : Chains ctx postfix_level tokens result)
    (h' : Reads ctx 1 tokens' result') (h'' : Reads ctx 1 tokens'' result'') :
    Chains ctx postfix_level (tokens ++ .of .openSquare ::
        (tokens' ++ .of .dotDot :: (tokens'' ++ [.of .closeSquare])))
      (result >>= fun subject => result' >>= fun from_index => result'' >>= fun to_index =>
        .ok (.slicing subject from_index to_index)) := by
  refine h.suffix (fun _ => follow_cons (by decide) _) (fun {fuel rest} hf loop_fuel subject => ?_)
    (by simp)
  simp only [List.cons_append, List.append_assoc, List.nil_append]
  have he := h'.expression fuel
    (.of .dotDot :: (tokens'' ++ .of .closeSquare :: rest))
    (follow_cons (by decide) _) (by simp at hf ⊢; omega)
  have he' := h''.expression fuel (.of .closeSquare :: rest)
    (follow_cons (by decide) _) (by simp at hf ⊢; omega)
  rw [consume_postfixes_slice he he']
  cases result'
  case error => rfl
  case ok => cases result'' <;> rfl

theorem Chains.select {field_name : Identifier} (h : Chains ctx postfix_level tokens result)
    (hn : is_reserved_keyword field_name = false) :
    Chains ctx postfix_level (tokens ++ [.of .dot, .ident field_name])
      (result >>= fun subject => .ok (.select subject field_name)) :=
  h.suffix (fun _ => follow_cons (by decide) _)
    (fun _ _ _ => consume_postfixes_select hn _ _) (by simp)

end

-- The tokens that an expression of a level starts with.
def Starts (level : Nat) (tokens : List Token) : Prop :=
  ∃ kind, TokenIter.next tokens = some kind ∧
    (kind ∈ [TokenKind.ident, .openParen, .openCurly, .integer, .string, .character] ∨
      level ≤ prefix_level ∧ ∃ operation, kind = unary_token operation)

theorem Starts.mono {level level' : Nat} {tokens : List Token} (h : Starts level tokens)
    (hl : level' ≤ level) : Starts level' tokens := by
  obtain ⟨kind, hn, hk⟩ := h
  exact ⟨kind, hn, hk.imp_right fun hp => ⟨Nat.le_trans hl hp.1, hp.2⟩⟩

theorem Starts.append {level : Nat} {tokens : List Token} (h : Starts level tokens)
    (rest : List Token) : Starts level (tokens ++ rest) := by
  obtain ⟨kind, hn, hk⟩ := h
  obtain ⟨token, tail, he, ht⟩ := TokenIter.next_eq_some hn
  subst he
  exact ⟨kind, hn, hk⟩

-- No delimiter of a list starts an expression.
theorem Starts.next_ne {level : Nat} {tokens : List Token} (h : Starts level tokens)
    (rest : List Token) {kind : TokenKind} (hc : kind ∈ [TokenKind.closeParen, .closeCurly]) :
    TokenIter.next (tokens ++ rest) ≠ some kind := by
  obtain ⟨kind', hn, hk⟩ := h.append rest
  rw [hn]
  intro he
  cases he
  simp only [List.mem_cons, List.not_mem_nil, or_false] at hc
  obtain rfl | rfl := hc <;> simp only [List.mem_cons, List.not_mem_nil, reduceCtorEq, or_false,
    false_or] at hk <;> obtain ⟨_, operation, he⟩ := hk <;> cases operation <;> cases he

section

variable {level : Nat} {tokens tokens' tokens'' : List Token}
  {result result' result'' : Except Failure ExpressionTree}

-- Behind an expression of the next level there is nothing more of a level to be read.
theorem Reads.lower_succ (h : Reads ctx (level + 1) tokens result) (hpos : 1 ≤ level)
    (hl : level ≤ 15) (hs : Starts (level + 1) tokens) : Reads ctx level tokens result := by
  match Nat.lt_or_ge level 3 with
  | .inr h₃ =>
    match Nat.lt_or_ge level 14 with
    | .inl h₁₃ =>
      have hloop := isLoop_of_bounds h₃ (Nat.le_of_lt_succ h₁₃)
      exact (h.chains hloop).reads hloop
    | .inr h₁₄ =>
      match Nat.eq_or_lt_of_le h₁₄ with
      | .inr h₁₅ =>
        have : level = 15 := by omega
        subst this
        exact (h.chains .suffixes).reads .suffixes
      | .inl h₁₄ =>
        subst h₁₄
        intro fuel rest hr hf
        have he := h fuel rest (hr.mono (by simp)) hf
        obtain ⟨kind, hn, hk⟩ := hs.append rest
        have hk : kind ∈ [TokenKind.ident, .openParen, .openCurly, .integer, .string, .character] := by
          simpa [prefix_level] using hk
        simp only [List.mem_cons, List.not_mem_nil, or_false] at hk
        simp only [at_level_unary, at_level_suffix, consume_prefix_expression, hn] at he ⊢
        obtain rfl | rfl | rfl | rfl | rfl | rfl := hk <;> exact he
  | .inl h₃ =>
    intro fuel rest hr hf
    have he := h fuel rest (hr.mono (Nat.le_succ _)) hf
    have hlevel : level = 1 ∨ level = 2 := by omega
    obtain rfl | rfl := hlevel
    · rw [at_level_conditional] at he
      rw [at_level_assignment, consume_assignment_expression]
      rw [he]
      cases result
      case error => rfl
      case ok => simp [bind, Except.bind, parse_assignment_operator_follow hr]
    · have hq : rest.next ≠ some .question := fun hn => absurd (hr _ hn) (Nat.lt_irrefl 2)
      rw [at_level_concat] at he
      rw [at_level_conditional, consume_conditional_expression]
      rw [he]
      cases result
      case error => rfl
      case ok => simp [bind, Except.bind, hq]

theorem Reads.lower {level' : Nat} (h : Reads ctx level' tokens result) (hs : Starts level' tokens)
    (hpos : 1 ≤ level) (hl : level ≤ level') (hl' : level' ≤ 16) : Reads ctx level tokens result := by
  induction hl
  case refl => exact h
  case step level' hl ih =>
    have hl : level ≤ level' := hl
    exact ih (h.lower_succ (Nat.le_trans hpos hl) (by omega) hs) (hs.mono (Nat.le_succ _)) (by omega)

theorem Reads.assignment {operation : AssignmentOperator} (h : Reads ctx 2 tokens result)
    (h' : Reads ctx 1 tokens' result') :
    Reads ctx 1 (tokens ++ .of (assignment_token operation) :: tokens')
      (result >>= fun left => result' >>= fun right => .ok (.assignment operation left right)) := by
  intro fuel rest hr hf
  simp only [List.append_assoc, List.cons_append, List.length_append, List.length_cons] at hf ⊢
  have he := h fuel (.of (assignment_token operation) :: (tokens' ++ rest))
    (follow_cons (by simp [kind_level_assignment]) _) (by simp; omega)
  have he' := h'.expression fuel rest hr (by simp; omega)
  rw [at_level_conditional] at he
  rw [at_level_assignment, consume_assignment_expression]
  rw [he]
  cases result
  case error => rfl
  case ok =>
    simp only [bind, Except.bind, TokenIter.next_cons, Token.kind_of, TokenIter.consume_cons,
      parse_assignment_operator_token, he']
    cases result' <;> rfl

-- The last operand is any expression, so nothing that carries on an expression may come behind it.
theorem Reads.conditional (h : Reads ctx 3 tokens result) (h' : Reads ctx 1 tokens' result')
    (h'' : Reads ctx 1 tokens'' result'') :
    Reads ctx 1 (tokens ++ .of .question :: (tokens' ++ .of .colon :: tokens''))
      (result >>= fun test => result' >>= fun true_expression => result'' >>= fun false_expression =>
        .ok (.conditional test true_expression false_expression)) := by
  intro fuel rest hr hf
  simp only [List.append_assoc, List.cons_append, List.length_append, List.length_cons] at hf ⊢
  have he := h fuel (.of .question :: (tokens' ++ .of .colon :: (tokens'' ++ rest)))
    (follow_cons (by decide) _) (by simp; omega)
  have he' := h'.expression fuel (.of .colon :: (tokens'' ++ rest))
    (follow_cons (by decide) _) (by simp; omega)
  have he'' := h''.expression fuel rest hr (by simp; omega)
  rw [at_level_concat] at he
  rw [at_level_assignment, consume_assignment_expression, consume_conditional_expression]
  rw [he]
  cases result
  case error => rfl
  case ok =>
    simp only [bind, Except.bind, TokenIter.next_cons, Token.kind_of, TokenIter.consume_cons, if_true,
      he']
    cases result'
    case error => rfl
    case ok =>
      simp only [bind, Except.bind, consume_token_of, he'']
      cases result''
      case error => rfl
      case ok => simp [parse_assignment_operator_follow hr]

theorem Reads.unary {operation : UnaryOperator} (h : Reads ctx prefix_level tokens result) :
    Reads ctx prefix_level (.of (unary_token operation) :: tokens)
      (result >>= fun expression => .ok (.unary operation expression)) := by
  intro fuel rest hr hf
  have he := h.prefix_expression fuel rest hr (by simp at hf ⊢; omega)
  simp only [prefix_level, at_level_unary, consume_prefix_expression, List.cons_append,
    TokenIter.next_cons, Token.kind_of, parse_prefix_token_unary, TokenIter.consume_cons, he]
  cases result <;> rfl

theorem Reads.parens (h : Reads ctx 1 tokens result) :
    Reads ctx 16 (.of .openParen :: tokens ++ [.of .closeParen]) result := by
  intro fuel rest _ hf
  have he := h.expression fuel (.of .closeParen :: rest)
    (follow_cons (by decide) _) (by simp at hf ⊢; omega)
  simp only [at_level_primary, consume_primary_expression, List.cons_append, List.append_assoc,
    List.nil_append, TokenIter.next_cons, Token.kind_of, TokenIter.consume_cons, he]
  cases result <;> simp [bind, Except.bind]

end

end Reowolf.Parser
