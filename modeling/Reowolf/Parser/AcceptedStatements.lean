import Reowolf.Parser.ExpressionRoundTrip
import Reowolf.Parser.Statements

namespace Reowolf.Parser

inductive Phrase
  | statement (stmts : List StatementTree)
  | statements (stmts : List StatementTree)
  | body (body : BlockStatementTree)

-- What the passes behind the parser take for granted of the statements in a block: those that end others
-- come right behind them, a declaration is followed by its initial assignment, a label stands at the first
-- statement of what it labels, one value is returned, and what is new is called.
inductive Phrase.Paired : Phrase → Prop
  | nil : Paired (.statements [])
  | cons {stmts stmts'} :
    Paired (.statement stmts) → Paired (.statements stmts') → Paired (.statements (stmts ++ stmts'))
  | braces {stmts} : Paired (.statements stmts) → Paired (.body ⟨false, stmts⟩)
  | wrapped {stmts} : Paired (.statement stmts) → Paired (.body ⟨true, stmts⟩)
  | block {stmts} : Paired (.statements stmts) → Paired (.statement [.block ⟨false, stmts⟩])
  | memory {identifier parser_type initial_expr} :
    is_reserved_keyword identifier = false →
    Paired (.statement [.memory ⟨identifier, parser_type⟩,
      .expression (.assignment .set (.variable identifier) initial_expr)])
  | channel {from_identifier to_identifier inner_type} :
    is_reserved_keyword from_identifier = false → is_reserved_keyword to_identifier = false →
    Paired (.statement [.channel ⟨from_identifier, .output :: inner_type⟩ ⟨to_identifier, .input :: inner_type⟩])
  | labeled {label body stmts} :
    is_reserved_keyword label = false → Paired (.statement (body :: stmts)) →
    Paired (.statement (.labeled label body :: stmts))
  | «if» {test true_body false_body} :
    Paired (.body true_body) → (∀ body ∈ false_body, Paired (.body body)) →
    Paired (.statement [.if test true_body false_body, .endIf])
  | «while» {test body} : Paired (.body body) → Paired (.statement [.while test body, .endWhile])
  | synchronous {body} : Paired (.body body) → Paired (.statement [.synchronous body, .endSynchronous])
  | «break» {label} :
    (∀ ident ∈ label, is_reserved_keyword ident = false) → Paired (.statement [.break label])
  | «continue» {label} :
    (∀ ident ∈ label, is_reserved_keyword ident = false) → Paired (.statement [.continue label])
  | «return» {expression} : Paired (.statement [.return [expression]])
  | goto {label} : is_reserved_keyword label = false → Paired (.statement [.goto label])
  | new {expression} : expression.is_user_call = true → Paired (.statement [.new expression])
  | expression {expression} : Paired (.statement [.expression expression])

section

variable {ctx : ExpressionCtx} {rec : StatementConsumer} {iter rest : TokenIter} {stmts : List StatementTree}
  {body : BlockStatementTree}

theorem consume_ident_ok {ident : Identifier} (h : consume_ident iter = .ok (ident, rest)) :
    is_reserved_keyword ident = false := by
  obtain ⟨⟨text, iter₁⟩, _, h⟩ := Except.bind_eq_ok.mp h
  dsimp only at h
  split at h
  case isTrue => cases h
  case isFalse hk =>
    cases h
    exact Bool.eq_false_iff.mpr hk

theorem consume_maybe_label_ok {label : Option Identifier} (h : consume_maybe_label iter = .ok (label, rest)) :
    ∀ ident ∈ label, is_reserved_keyword ident = false := by
  rw [consume_maybe_label] at h
  split at h
  case isTrue =>
    obtain ⟨⟨text, iter₁⟩, hi, h⟩ := Except.bind_eq_ok.mp h
    cases h
    rintro ident ⟨⟩
    exact consume_ident_ok hi
  case isFalse =>
    cases h
    rintro ident ⟨⟩

theorem expression_statement_paired (h : consume_expression_statement ctx iter = .ok (stmts, rest)) :
    (Phrase.statement stmts).Paired := by
  obtain ⟨⟨expression, iter₁⟩, _, h⟩ := Except.bind_eq_ok.mp h
  obtain ⟨iter₂, _, h⟩ := Except.bind_eq_ok.mp h
  cases h
  exact .expression

theorem memory_statement_paired
    (h : maybe_consume_memory_statement ctx iter = .ok (some (stmts, rest))) :
    (Phrase.statement stmts).Paired := by
  unfold maybe_consume_memory_statement at h
  split at h
  case h_1 | h_2 => cases h
  case h_3 elements iter₁ _ =>
    split at h
    case isFalse => cases h
    case isTrue =>
      obtain ⟨⟨identifier, iter₂⟩, hi, h⟩ := Except.bind_eq_ok.mp h
      obtain ⟨iter₃, _, h⟩ := Except.bind_eq_ok.mp h
      obtain ⟨⟨initial_expr, iter₄⟩, _, h⟩ := Except.bind_eq_ok.mp h
      obtain ⟨iter₅, _, h⟩ := Except.bind_eq_ok.mp h
      cases h
      exact .memory (consume_ident_ok hi)

theorem channel_statement_paired (h : consume_channel_statement ctx iter = .ok (stmts, rest)) :
    (Phrase.statement stmts).Paired := by
  obtain ⟨iter₁, _, h⟩ := Except.bind_eq_ok.mp h
  have hports : ∀ {inner_port_type iter₂},
      (do let from_identifier ← consume_ident iter₂
          let iter ← consume_token from_identifier.2 .arrowRight
          let to_identifier ← consume_ident iter
          let iter ← consume_token to_identifier.2 .semiColon
          .ok ([StatementTree.channel ⟨from_identifier.1, .output :: inner_port_type⟩
            ⟨to_identifier.1, .input :: inner_port_type⟩], iter)) = Except.ok (ε := Failure) (stmts, rest) →
      (Phrase.statement stmts).Paired := by
    intro inner_port_type iter₂ h
    obtain ⟨⟨from_identifier, iter₃⟩, hf, h⟩ := Except.bind_eq_ok.mp h
    obtain ⟨iter₄, _, h⟩ := Except.bind_eq_ok.mp h
    obtain ⟨⟨to_identifier, iter₅⟩, ht, h⟩ := Except.bind_eq_ok.mp h
    obtain ⟨iter₆, _, h⟩ := Except.bind_eq_ok.mp h
    cases h
    exact .channel (consume_ident_ok hf) (consume_ident_ok ht)
  dsimp only at h
  split at h
  case isTrue =>
    obtain ⟨⟨elements, iter₂⟩, _, h⟩ := Except.bind_eq_ok.mp h
    exact hports h
  case isFalse =>
    exact hports h

theorem new_statement_paired (h : consume_new_statement ctx iter = .ok (stmts, rest)) :
    (Phrase.statement stmts).Paired := by
  obtain ⟨iter₁, _, h⟩ := Except.bind_eq_ok.mp h
  obtain ⟨⟨expression, iter₂⟩, _, h⟩ := Except.bind_eq_ok.mp h
  dsimp only at h
  split at h
  case isFalse => cases h
  case isTrue hc =>
    obtain ⟨iter₃, _, h⟩ := Except.bind_eq_ok.mp h
    cases h
    exact .new hc

theorem return_statement_paired (h : consume_return_statement ctx iter = .ok (stmts, rest)) :
    (Phrase.statement stmts).Paired := by
  obtain ⟨iter₁, _, h⟩ := Except.bind_eq_ok.mp h
  obtain ⟨⟨expressions, iter₂⟩, _, h⟩ := Except.bind_eq_ok.mp h
  dsimp only at h
  split at h
  case isTrue => cases h
  case isFalse hempty =>
    split at h
    case isTrue => cases h
    case isFalse hmany =>
      cases h
      cases expressions with
      | nil => exact absurd rfl hempty
      | cons expression expressions =>
        cases expressions with
        | nil => exact .return
        | cons => exact absurd (by simp) hmany

theorem jump_statement_paired (h : consume_break_statement iter = .ok (stmts, rest) ∨
    consume_continue_statement iter = .ok (stmts, rest) ∨ consume_goto_statement iter = .ok (stmts, rest)) :
    (Phrase.statement stmts).Paired := by
  obtain h | h | h := h
  all_goals
    obtain ⟨iter₁, _, h⟩ := Except.bind_eq_ok.mp h
    obtain ⟨⟨label, iter₂⟩, hl, h⟩ := Except.bind_eq_ok.mp h
    obtain ⟨iter₃, _, h⟩ := Except.bind_eq_ok.mp h
    cases h
  · exact .break (consume_maybe_label_ok hl)
  · exact .continue (consume_maybe_label_ok hl)
  · exact .goto (consume_ident_ok hl)

-- What is consumed by the function for a statement inside of another one.
def AcceptsPaired (rec : StatementConsumer) : Prop :=
  ∀ {iter rest stmts}, rec iter = .ok (stmts, rest) → (Phrase.statement stmts).Paired

theorem statements_paired (hrec : AcceptsPaired rec) {fuel : Nat}
    (h : consume_statements rec fuel iter = .ok (stmts, rest)) : (Phrase.statements stmts).Paired := by
  induction fuel generalizing iter stmts with
  | zero         => cases h
  | succ fuel ih =>
    rw [consume_statements] at h
    split at h
    case isTrue =>
      cases h
      exact .nil
    case isFalse =>
      split at h
      case isTrue  => cases h
      case isFalse =>
        obtain ⟨⟨stmts₁, iter₁⟩, h₁, h⟩ := Except.bind_eq_ok.mp h
        obtain ⟨⟨stmts₂, iter₂⟩, h₂, h⟩ := Except.bind_eq_ok.mp h
        cases h
        exact .cons (hrec h₁) (ih h₂)

theorem without_leading_curly_paired (hrec : AcceptsPaired rec)
    (h : consume_block_statement_without_leading_curly rec iter = .ok (body, rest)) :
    ∃ stmts, body = ⟨false, stmts⟩ ∧ (Phrase.statements stmts).Paired := by
  obtain ⟨⟨stmts, iter₁⟩, hs, h⟩ := Except.bind_eq_ok.mp h
  obtain ⟨iter₂, _, h⟩ := Except.bind_eq_ok.mp h
  cases h
  exact ⟨stmts, rfl, statements_paired hrec hs⟩

theorem block_statement_paired (hrec : AcceptsPaired rec)
    (h : consume_block_statement rec iter = .ok (body, rest)) :
    ∃ stmts, body = ⟨false, stmts⟩ ∧ (Phrase.statements stmts).Paired := by
  obtain ⟨iter₁, _, h⟩ := Except.bind_eq_ok.mp h
  exact without_leading_curly_paired hrec h

theorem block_or_wrapped_paired (hrec : AcceptsPaired rec)
    (h : consume_block_or_wrapped_statement rec iter = .ok (body, rest)) : (Phrase.body body).Paired := by
  unfold consume_block_or_wrapped_statement at h
  dsimp only at h
  split at h
  case isTrue =>
    obtain ⟨stmts, rfl, hs⟩ := block_statement_paired hrec h
    exact .braces hs
  case isFalse =>
    obtain ⟨⟨stmts, iter₁⟩, hs, h⟩ := Except.bind_eq_ok.mp h
    cases h
    exact .wrapped (hrec hs)

theorem if_statement_paired (hrec : AcceptsPaired rec)
    (h : consume_if_statement ctx rec iter = .ok (stmts, rest)) : (Phrase.statement stmts).Paired := by
  obtain ⟨iter₁, _, h⟩ := Except.bind_eq_ok.mp h
  obtain ⟨⟨test, iter₂⟩, _, h⟩ := Except.bind_eq_ok.mp h
  obtain ⟨⟨true_body, iter₃⟩, ht, h⟩ := Except.bind_eq_ok.mp h
  have htrue := block_or_wrapped_paired hrec ht
  dsimp only at h
  split at h
  case isTrue =>
    obtain ⟨⟨false_body, iter₄⟩, hf, h⟩ := Except.bind_eq_ok.mp h
    cases h
    refine .if htrue ?_
    rintro body ⟨⟩
    exact block_or_wrapped_paired hrec hf
  case isFalse =>
    cases h
    refine .if htrue ?_
    rintro body ⟨⟩

theorem while_statement_paired (hrec : AcceptsPaired rec)
    (h : consume_while_statement ctx rec iter = .ok (stmts, rest)) : (Phrase.statement stmts).Paired := by
  obtain ⟨iter₁, _, h⟩ := Except.bind_eq_ok.mp h
  obtain ⟨⟨test, iter₂⟩, _, h⟩ := Except.bind_eq_ok.mp h
  obtain ⟨⟨body, iter₃⟩, hb, h⟩ := Except.bind_eq_ok.mp h
  cases h
  exact .while (block_or_wrapped_paired hrec hb)

theorem synchronous_statement_paired (hrec : AcceptsPaired rec)
    (h : consume_synchronous_statement rec iter = .ok (stmts, rest)) : (Phrase.statement stmts).Paired := by
  obtain ⟨iter₁, _, h⟩ := Except.bind_eq_ok.mp h
  obtain ⟨⟨body, iter₂⟩, hb, h⟩ := Except.bind_eq_ok.mp h
  cases h
  exact .synchronous (block_or_wrapped_paired hrec hb)

theorem labeled_statement_paired (hrec : AcceptsPaired rec)
    (h : consume_labeled_statement rec iter = .ok (stmts, rest)) : (Phrase.statement stmts).Paired := by
  obtain ⟨⟨label, iter₁⟩, hl, h⟩ := Except.bind_eq_ok.mp h
  obtain ⟨iter₂, _, h⟩ := Except.bind_eq_ok.mp h
  obtain ⟨⟨inner_statements, iter₃⟩, hi, h⟩ := Except.bind_eq_ok.mp h
  dsimp only at h
  split at h
  case h_1 => cases h
  case h_2 =>
    cases h
    exact .labeled (consume_ident_ok hl) (hrec hi)

theorem named_statement_paired (hrec : AcceptsPaired rec) {ident : Identifier}
    (h : consume_named_statement ctx rec ident iter = .ok (stmts, rest)) :
    (Phrase.statement stmts).Paired := by
  unfold consume_named_statement at h
  split at h
  case isTrue => exact if_statement_paired hrec h
  case isFalse =>
  split at h
  case isTrue => exact while_statement_paired hrec h
  case isFalse =>
  split at h
  case isTrue => exact jump_statement_paired (.inl h)
  case isFalse =>
  split at h
  case isTrue => exact jump_statement_paired (.inr (.inl h))
  case isFalse =>
  split at h
  case isTrue => exact synchronous_statement_paired hrec h
  case isFalse =>
  split at h
  case isTrue => exact return_statement_paired h
  case isFalse =>
  split at h
  case isTrue => exact jump_statement_paired (.inr (.inr h))
  case isFalse =>
  split at h
  case isTrue => exact new_statement_paired h
  case isFalse =>
  split at h
  case isTrue => exact channel_statement_paired h
  case isFalse =>
  split at h
  case isTrue => exact labeled_statement_paired hrec h
  case isFalse =>
  obtain ⟨result, hm, h⟩ := Except.bind_eq_ok.mp h
  cases result with
  | none        => exact expression_statement_paired h
  | some result =>
    obtain ⟨stmts', iter₁⟩ := result
    cases h
    exact memory_statement_paired hm

theorem statement_paired (hrec : AcceptsPaired rec) : AcceptsPaired (consume_statement ctx rec) := by
  intro iter rest stmts h
  unfold consume_statement at h
  split at h
  case h_1 => cases h
  case h_2 token tail =>
    split at h
    case isTrue =>
      obtain ⟨⟨body, iter₁⟩, hb, h⟩ := Except.bind_eq_ok.mp h
      cases h
      obtain ⟨stmts, rfl, hs⟩ := block_statement_paired hrec hb
      exact .block hs
    case isFalse =>
      split at h
      case isTrue  => exact named_statement_paired hrec h
      case isFalse => exact expression_statement_paired h

end

-- A body that is accepted, whatever tokens it is read from, is paired, in all of the blocks in it.
theorem accepted_body_paired {ctx : ExpressionCtx} {iter rest : TokenIter} {body : BlockStatementTree}
    (h : consume_body ctx iter = .ok (body, rest)) :
    body.is_implicit = false ∧ (Phrase.statements body.statements).Paired := by
  have hrec : ∀ fuel, AcceptsPaired (statement_recursion ctx fuel) := by
    intro fuel
    induction fuel with
    | zero =>
      intro iter rest stmts h
      cases h
    | succ fuel ih => exact statement_paired ih
  obtain ⟨stmts, rfl, hs⟩ := without_leading_curly_paired (hrec _) h
  exact ⟨rfl, hs⟩

-- The body `l: while (x) break; return f; }`.
theorem accepted_body_paired_loop :
    let stmts : List StatementTree :=
      [.labeled "l" (.while (.variable "x") ⟨true, [.break none]⟩), .endWhile, .return [.variable "f"]]
    consume_body ExpressionTree.empty_ctx [.ident "l", .of .colon, .ident "while", .of .openParen, .ident "x",
        .of .closeParen, .ident "break", .of .semiColon, .ident "return", .ident "f", .of .semiColon,
        .of .closeCurly] = .ok (⟨false, stmts⟩, []) ∧
      (Phrase.statements stmts).Paired := by
  intro stmts
  have hread : consume_body ExpressionTree.empty_ctx [.ident "l", .of .colon, .ident "while", .of .openParen,
      .ident "x", .of .closeParen, .ident "break", .of .semiColon, .ident "return", .ident "f", .of .semiColon,
      .of .closeCurly] = .ok (⟨false, stmts⟩, []) := rfl
  exact ⟨hread, (accepted_body_paired hread).right⟩

end Reowolf.Parser
