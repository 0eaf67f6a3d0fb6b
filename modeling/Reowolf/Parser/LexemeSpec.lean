import Reowolf.Parser.Lexemes

namespace Reowolf.Parser

-- What does not succeed is an error that is reported: no index is out of bounds and no loop is left
-- before it ends.
def Reports {α : Type} (x : Except Failure α) : Prop :=
  ∀ e, x = .error e → ∃ message, e = .parseError message

namespace Reports

variable {α β : Type}

theorem ok (a : α) : Reports (.ok a) :=
  fun _ h => by cases h

theorem error (message : String) : Reports (.error (.parseError message) : Except Failure α) :=
  fun _ h => ⟨message, (Except.error.inj h).symm⟩

theorem bind {x : Except Failure α} {f : α → Except Failure β} (hx : Reports x)
    (hf : ∀ a, x = .ok a → Reports (f a)) : Reports (x >>= f) := by
  intro e he
  match x, hx, hf with
  | .ok a, _, hf => exact hf a rfl e he
  | .error _, hx, _ =>
    cases he
    exact hx _ rfl

end Reports

namespace InputSource

variable (source : InputSource)

@[simp] theorem input_consume : source.consume.input = source.input.tail := by
  unfold consume
  split
  case h_1 h => simp [h]
  case h_2 h => simp [h]

@[simp] theorem input_consume_times (n : Nat) :
    (consume_times n source).input = source.input.drop n := by
  induction n generalizing source
  case zero => rfl
  case succ n ih => simp [consume_times, ih]

theorem input_consume_while_go (p : Char → Bool) (input : List Char) (source : InputSource)
    (h : source.input = input) : (consume_while.go p input source).input = input.dropWhile p := by
  induction input generalizing source
  case nil => exact h
  case cons c input ih =>
    simp only [consume_while.go, List.dropWhile_cons]
    split
    · exact ih _ (by simp [h])
    · exact h

@[simp] theorem input_consume_while (p : Char → Bool) :
    (source.consume_while p).input = source.input.dropWhile p :=
  input_consume_while_go p source.input source rfl

end InputSource

namespace PassTokenizer

variable {source source' : InputSource}

theorem consume_char_literal_rest_suffix {input : List Char} {prev_char last_char : Char}
    (hs : source.input = input)
    (h : consume_char_literal_rest input prev_char source = .ok (last_char, source')) :
    source'.input <:+ input := by
  induction input generalizing prev_char source
  case nil =>
    cases h
    simp [hs]
  case cons c input ih =>
    have hc : source.consume.input = input := by simp [hs]
    simp only [consume_char_literal_rest] at h
    split at h
    case isFalse => cases h
    case isTrue =>
      split at h
      case isTrue =>
        cases h
        simp [hs]
      case isFalse => exact (ih hc h).trans (List.suffix_cons c input)

theorem consume_string_literal_rest_suffix {input : List Char} {prev_char last_char : Char}
    (hs : source.input = input)
    (h : consume_string_literal_rest input prev_char source = .ok (last_char, source')) :
    source'.input <:+ input := by
  induction input generalizing prev_char source
  case nil =>
    cases h
    simp [hs]
  case cons c input ih =>
    have hc : source.consume.input = input := by simp [hs]
    simp only [consume_string_literal_rest] at h
    split at h
    case isFalse => cases h
    case isTrue =>
      split at h
      case isTrue =>
        cases h
        simp [hs]
      case isFalse => exact (ih hc h).trans (List.suffix_cons c input)

theorem consume_block_comment_rest_suffix {input : List Char} {prev_char : Char}
    (hs : source.input = input)
    (h : consume_block_comment_rest input prev_char source = some source') :
    source'.input <:+ input := by
  induction input generalizing prev_char source
  case nil => cases h
  case cons c input ih =>
    have hc : source.consume.input = input := by simp [hs]
    simp only [consume_block_comment_rest] at h
    split at h
    case isTrue =>
      cases h
      simp [hs]
    case isFalse => exact (ih hc h).trans (List.suffix_cons c input)

-- What is consumed with a lexeme is more than nothing, and so are the tokens that it is made of.
structure Consumed (source : InputSource) (tokens : List BufferToken) (source' : InputSource) :
    Prop where
  tokens : tokens ≠ []
  suffix : source'.input <:+ source.input.tail

theorem spanned_ne_nil (kind : TokenKind) (begin_pos end_pos : InputPosition) :
    spanned kind begin_pos end_pos ≠ [] :=
  List.cons_ne_nil _ _

theorem consume_char_literal_ok {tokens : List BufferToken}
    (h : consume_char_literal source = .ok (tokens, source')) : Consumed source tokens source' := by
  obtain ⟨⟨prev_char, source₁⟩, hr, h⟩ := Except.bind_eq_ok.mp h
  have hs := consume_char_literal_rest_suffix rfl hr
  rw [InputSource.input_consume] at hs
  simp only [] at h
  split at h
  case isTrue =>
    cases h
    exact ⟨spanned_ne_nil _ _ _, hs⟩
  case isFalse => cases h

theorem consume_string_literal_ok {tokens : List BufferToken}
    (h : consume_string_literal source = .ok (tokens, source')) : Consumed source tokens source' := by
  obtain ⟨⟨prev_char, source₁⟩, hr, h⟩ := Except.bind_eq_ok.mp h
  have hs := consume_string_literal_rest_suffix rfl hr
  rw [InputSource.input_consume] at hs
  simp only [] at h
  split at h
  case isTrue =>
    cases h
    exact ⟨spanned_ne_nil _ _ _, hs⟩
  case isFalse => cases h

theorem consume_pragma_or_pound_ok {was_pragma : Bool} {tokens : List BufferToken}
    (h : consume_pragma_or_pound source = .ok (was_pragma, tokens, source')) :
    Consumed source tokens source' := by
  unfold consume_pragma_or_pound at h
  simp only [] at h
  split at h
  case isTrue =>
    obtain ⟨_, _, h⟩ := Except.bind_eq_ok.mp h
    cases h
    refine ⟨spanned_ne_nil _ _ _, ?_⟩
    simp only [InputSource.input_consume_while, InputSource.input_consume]
    exact (List.dropWhile_suffix _).trans (List.tail_suffix _)
  case isFalse =>
    cases h
    exact ⟨List.cons_ne_nil _ _, by simp⟩

theorem consume_identifier_ok {ident : Identifier} {tokens : List BufferToken}
    (h : consume_identifier source = .ok (ident, tokens, source')) :
    Consumed source tokens source' := by
  obtain ⟨_, _, h⟩ := Except.bind_eq_ok.mp h
  cases h
  exact ⟨spanned_ne_nil _ _ _, by simpa using List.dropWhile_suffix _⟩

theorem consume_number_ok {tokens : List BufferToken}
    (h : consume_number source = .ok (tokens, source')) : Consumed source tokens source' := by
  obtain ⟨_, _, h⟩ := Except.bind_eq_ok.mp h
  cases h
  exact ⟨spanned_ne_nil _ _ _, by simpa using List.dropWhile_suffix _⟩

theorem dropWhile_suffix_tail {p : Char → Bool} {c : Char} {input : List Char}
    (hc : input.head? = some c) (hp : p c = true) : input.dropWhile p <:+ input.tail := by
  match input, hc with
  | _ :: input, rfl =>
    rw [List.dropWhile_cons, if_pos hp, List.tail_cons]
    exact List.dropWhile_suffix p

theorem consume_line_comment_ok {tokens : List BufferToken} (hc : source.next = some '/')
    (h : consume_line_comment source = (tokens, source')) : Consumed source tokens source' := by
  unfold consume_line_comment at h
  simp only [] at h
  split at h
  case h_1 =>
    cases h
    refine ⟨spanned_ne_nil _ _ _, ?_⟩
    simp only [InputSource.input_consume, InputSource.input_consume_while]
    exact (List.tail_suffix _).trans (dropWhile_suffix_tail hc (by decide))
  case h_2 =>
    cases h
    refine ⟨spanned_ne_nil _ _ _, ?_⟩
    simp only [InputSource.input_consume_while]
    exact dropWhile_suffix_tail hc (by decide)

theorem consume_block_comment_ok {tokens : List BufferToken}
    (h : consume_block_comment source = .ok (tokens, source')) : Consumed source tokens source' := by
  unfold consume_block_comment at h
  simp only [] at h
  split at h
  case h_1 hr =>
    cases h
    have hs := consume_block_comment_rest_suffix rfl hr
    simp only [InputSource.input_consume] at hs
    exact ⟨spanned_ne_nil _ _ _, hs.trans (List.tail_suffix _)⟩
  case h_2 => cases h

-- A token of punctuation is written with at least one character.
theorem punctuation_kind_chars {c : Char} {second third : Option Char} {token_kind : TokenKind}
    (h : punctuation_kind c second third = some token_kind) :
    1 ≤ token_kind.token_chars.length := by
  have hall : ∀ kind ∈ punctuation_kind c second third, 1 ≤ kind.token_chars.length := by
    unfold punctuation_kind
    split <;> intro kind hk <;> (try split at hk) <;> (try split at hk) <;> (try split at hk) <;>
      cases hk <;> decide
  exact hall token_kind h

theorem maybe_parse_punctuation_ok {c : Char} {token_kind : TokenKind}
    (h : maybe_parse_punctuation c source = .ok (some token_kind, source')) :
    source'.input <:+ source.input.tail := by
  unfold maybe_parse_punctuation at h
  split at h
  case h_1 kind hk =>
    cases h
    have hpos : 1 ≤ token_kind.token_chars.length := punctuation_kind_chars hk
    rw [InputSource.input_consume_times, ← List.drop_one]
    exact List.drop_suffix_drop_left source.input hpos
  case h_2 =>
    obtain ⟨_, _, h⟩ := Except.bind_eq_ok.mp h
    cases h

-- The tokens of a lexeme, of which there is at least one.
def Lexeme.Proper : Lexeme → Prop
  | .tokens pushed _ => pushed ≠ []
  | _ => True

theorem consume_lexeme_ok {c : Char} {lexeme : Lexeme} (hc : source.next = some c)
    (h : consume_lexeme c source = .ok (lexeme, source')) :
    Lexeme.Proper lexeme ∧ source'.input <:+ source.input.tail := by
  unfold consume_lexeme at h
  split at h
  case isTrue =>
    obtain ⟨_, ht, h⟩ := Except.bind_eq_ok.mp h
    cases h
    exact ⟨(consume_char_literal_ok ht).tokens, (consume_char_literal_ok ht).suffix⟩
  split at h
  case isTrue =>
    obtain ⟨_, ht, h⟩ := Except.bind_eq_ok.mp h
    cases h
    exact ⟨(consume_string_literal_ok ht).tokens, (consume_string_literal_ok ht).suffix⟩
  split at h
  case isTrue =>
    obtain ⟨_, ht, h⟩ := Except.bind_eq_ok.mp h
    cases h
    exact ⟨(consume_identifier_ok ht).tokens, (consume_identifier_ok ht).suffix⟩
  split at h
  case isTrue =>
    obtain ⟨_, ht, h⟩ := Except.bind_eq_ok.mp h
    cases h
    exact ⟨(consume_number_ok ht).tokens, (consume_number_ok ht).suffix⟩
  split at h
  case isTrue =>
    obtain ⟨_, ht, h⟩ := Except.bind_eq_ok.mp h
    cases h
    exact ⟨(consume_pragma_or_pound_ok ht).tokens, (consume_pragma_or_pound_ok ht).suffix⟩
  split at h
  case isTrue hl =>
    cases h
    have hs : c = '/' := by
      simp only [is_line_comment_start, Bool.and_eq_true, decide_eq_true_eq] at hl
      exact hl.1
    have ht := consume_line_comment_ok (hs ▸ hc) rfl
    exact ⟨ht.tokens, ht.suffix⟩
  split at h
  case isTrue =>
    obtain ⟨_, ht, h⟩ := Except.bind_eq_ok.mp h
    cases h
    exact ⟨(consume_block_comment_ok ht).tokens, (consume_block_comment_ok ht).suffix⟩
  split at h
  case isTrue hw =>
    cases h
    refine ⟨trivial, ?_⟩
    rw [InputSource.input_consume_while]
    exact dropWhile_suffix_tail hc hw
  case isFalse =>
    obtain ⟨⟨was_punctuation, _⟩, ht, h⟩ := Except.bind_eq_ok.mp h
    match was_punctuation, h with
    | some token, h =>
      cases h
      exact ⟨trivial, maybe_parse_punctuation_ok ht⟩

end PassTokenizer

end Reowolf.Parser
