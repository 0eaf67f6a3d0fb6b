import Reowolf.Parser.RangeWalk
import Reowolf.Parser.SourcePositions

namespace Reowolf.Parser.PassTokenizer

-- The states that the main loop comes to on its way through an input, from a state of the pass.
inductive Reaches (initial : PassTokenizer) (whole : List Char) : PassTokenizer → TokenBuffer → InputSource → Prop
  | start : Reaches initial whole initial ⟨[], [module_range]⟩ (.new whole)
  | round {pass pass' target target' source source' c lexeme} :
    Reaches initial whole pass target source → source.next = some c →
    consume_lexeme c source = .ok (lexeme, source') →
    pass.visit_lexeme target lexeme = .ok (pass', target') → Reaches initial whole pass' target' source'

-- A lexeme consists of the characters that are consumed with it.
structure Advances (source source' : InputSource) (n : Nat) : Prop where
  pos : 1 ≤ n
  le  : n ≤ source.input.length
  eq  : source' = source.consume_times n

variable {source source' : InputSource} {c : Char}

theorem input_of_next (h : source.next = some c) : ∃ input, source.input = c :: input :=
  List.head?_eq_some_iff.mp h

-- Consuming the first character, and then those of the rest that satisfy a test.
theorem Advances.consume_while (h : source.next = some c) (p : Char → Bool) :
    Advances source (source.consume.consume_while p) ((source.input.tail.takeWhile p).length + 1) := by
  obtain ⟨input, hi⟩ := input_of_next h
  have hle := (List.takeWhile_prefix p (l := source.input.tail)).length_le
  constructor
  case pos => omega
  case le =>
    rw [hi, List.length_cons, List.tail_cons] at *
    omega
  case eq =>
    rw [InputSource.consume_while_eq, InputSource.input_consume]
    rfl

theorem consume_char_literal_rest_times {input : List Char} {prev_char last_char : Char}
    (h : consume_char_literal_rest input prev_char source = .ok (last_char, source')) :
    ∃ n, n ≤ input.length ∧ (input ≠ [] → 1 ≤ n) ∧ source' = source.consume_times n := by
  induction input generalizing prev_char source with
  | nil =>
    cases h
    exact ⟨0, Nat.le_refl _, fun hne => absurd rfl hne, rfl⟩
  | cons c input ih =>
    rw [consume_char_literal_rest] at h
    split at h
    case isFalse => cases h
    case isTrue =>
      split at h
      case isTrue =>
        cases h
        exact ⟨1, Nat.le_add_left _ _, fun _ => Nat.le_refl _, rfl⟩
      case isFalse =>
        obtain ⟨n, hn, _, he⟩ := ih h
        exact ⟨n + 1, Nat.succ_le_succ hn, fun _ => Nat.le_add_left _ _, he⟩

theorem consume_string_literal_rest_times {input : List Char} {prev_char last_char : Char}
    (h : consume_string_literal_rest input prev_char source = .ok (last_char, source')) :
    ∃ n, n ≤ input.length ∧ source' = source.consume_times n := by
  induction input generalizing prev_char source with
  | nil =>
    cases h
    exact ⟨0, Nat.le_refl _, rfl⟩
  | cons c input ih =>
    rw [consume_string_literal_rest] at h
    split at h
    case isFalse => cases h
    case isTrue =>
      split at h
      case isTrue =>
        cases h
        exact ⟨1, Nat.le_add_left _ _, rfl⟩
      case isFalse =>
        obtain ⟨n, hn, he⟩ := ih h
        exact ⟨n + 1, Nat.succ_le_succ hn, he⟩

theorem consume_block_comment_rest_times {input : List Char} {prev_char : Char}
    (h : consume_block_comment_rest input prev_char source = some source') :
    ∃ n, n ≤ input.length ∧ source' = source.consume_times n := by
  induction input generalizing prev_char source with
  | nil => cases h
  | cons c input ih =>
    rw [consume_block_comment_rest] at h
    split at h
    case isTrue =>
      cases h
      exact ⟨1, Nat.le_add_left _ _, rfl⟩
    case isFalse =>
      obtain ⟨n, hn, he⟩ := ih h
      exact ⟨n + 1, Nat.succ_le_succ hn, he⟩

-- The first character, and then some of what is behind it.
theorem Advances.of_rest {n : Nat} (h : source.next = some c) (hn : n ≤ source.consume.input.length) :
    Advances source (source.consume.consume_times n) (n + 1) := by
  obtain ⟨input, hi⟩ := input_of_next h
  rw [InputSource.input_consume, hi, List.tail_cons] at hn
  refine ⟨Nat.le_add_left _ _, ?_, rfl⟩
  rw [hi]
  exact Nat.succ_le_succ hn

theorem consume_char_literal_advances {tokens : List BufferToken} (hc : source.next = some c)
    (h : consume_char_literal source = .ok (tokens, source')) :
    tokens = spanned .character source.pos source'.pos ∧
      ∃ n, Advances source source' n ∧ (source.input.tail ≠ [] → 2 ≤ n) := by
  obtain ⟨⟨prev_char, source₁⟩, hr, h⟩ := Except.bind_eq_ok.mp h
  obtain ⟨n, hn, hpos, he⟩ := consume_char_literal_rest_times hr
  rw [InputSource.input_consume] at hpos
  by_cases hq : prev_char = '\''
  case pos =>
    cases (if_pos hq).symm.trans h
    exact ⟨rfl, n + 1, he ▸ .of_rest hc hn, fun hne => Nat.succ_le_succ (hpos hne)⟩
  case neg => cases (if_neg hq).symm.trans h

theorem consume_string_literal_advances {tokens : List BufferToken} (hc : source.next = some c)
    (h : consume_string_literal source = .ok (tokens, source')) :
    tokens = spanned .string source.pos source'.pos ∧ ∃ n, Advances source source' n := by
  obtain ⟨⟨prev_char, source₁⟩, hr, h⟩ := Except.bind_eq_ok.mp h
  obtain ⟨n, hn, he⟩ := consume_string_literal_rest_times hr
  by_cases hq : prev_char = '"'
  case pos =>
    cases (if_pos hq).symm.trans h
    exact ⟨rfl, n + 1, he ▸ .of_rest hc hn⟩
  case neg => cases (if_neg hq).symm.trans h

theorem consume_identifier_advances {ident : Identifier} {tokens : List BufferToken} (hc : source.next = some c)
    (h : consume_identifier source = .ok (ident, tokens, source')) :
    tokens = spanned .ident source.pos source'.pos ∧ ∃ n, Advances source source' n := by
  obtain ⟨_, _, h⟩ := Except.bind_eq_ok.mp h
  cases h
  exact ⟨rfl, _, .consume_while hc _⟩

theorem consume_number_advances {tokens : List BufferToken} (hc : source.next = some c)
    (h : consume_number source = .ok (tokens, source')) :
    tokens = spanned .integer source.pos source'.pos ∧ ∃ n, Advances source source' n := by
  obtain ⟨_, _, h⟩ := Except.bind_eq_ok.mp h
  cases h
  exact ⟨rfl, _, .consume_while hc _⟩

theorem consume_block_comment_advances {tokens : List BufferToken} (hc : source.next = some c)
    (hl : 2 ≤ source.input.length) (h : consume_block_comment source = .ok (tokens, source')) :
    tokens = spanned .blockComment source.pos source'.pos ∧ ∃ n, Advances source source' n := by
  rw [consume_block_comment] at h
  cases hr : consume_block_comment_rest source.consume.consume.input ' ' source.consume.consume with
  | none =>
    rw [hr] at h
    cases h
  | some source₁ =>
    rw [hr] at h
    cases h
    obtain ⟨n, hn, he⟩ := consume_block_comment_rest_times hr
    refine ⟨rfl, n + 1 + 1, he ▸ .of_rest (n := n + 1) hc ?_⟩
    simp only [InputSource.input_consume, List.length_tail] at hn ⊢
    omega

-- What comes of a line comment depends on whether there is a newline behind it.
inductive LineComment (source source' : InputSource) : List BufferToken → Prop
  | newline (text rest : List Char) : source.input = text ++ '\n' :: rest → '\n' ∉ text →
    source' = source.consume_times (text.length + 1) →
    LineComment source source' (spanned .lineComment source.pos
      { (source.consume_times text.length).pos with
        offset := (source.consume_times text.length).pos.offset - if text.getLast? = some '\r' then 2 else 1 })
  | file : '\n' ∉ source.input → source' = source.consume_times source.input.length →
    LineComment source source' (spanned .lineComment source.pos source'.pos)

theorem consume_line_comment_eq {tokens : List BufferToken} (h : consume_line_comment source = (tokens, source')) :
    LineComment source source' tokens := by
  have hsplit : source.input.takeWhile (· ≠ '\n') ++ source.input.dropWhile (· ≠ '\n') = source.input :=
    List.takeWhile_append_dropWhile
  have htext : '\n' ∉ source.input.takeWhile (· ≠ '\n') := by
    intro hm
    have hne := List.all_eq_true.mp List.all_takeWhile _ hm
    simp at hne
  rw [consume_line_comment] at h
  simp only [InputSource.consume_while_eq, InputSource.next, InputSource.input_consume_times] at h
  have hdrop : source.input.drop (source.input.takeWhile (· ≠ '\n')).length =
      source.input.dropWhile (· ≠ '\n') := by
    conv => lhs; rw [← hsplit]
    rw [List.drop_append_of_le_length (by simp)]
    simp
  rw [hdrop] at h
  cases hrest : source.input.dropWhile (· ≠ '\n') with
  | nil =>
    rw [hrest] at h hsplit
    rw [List.append_nil] at hsplit
    cases h
    rw [hsplit] at htext ⊢
    exact .file htext rfl
  | cons d rest =>
    have hd : d = '\n' := by
      have hhead := List.head?_dropWhile_not (· ≠ '\n') source.input
      rw [hrest] at hhead
      simpa using hhead
    subst hd
    rw [hrest] at h hsplit
    cases h
    refine .newline _ rest hsplit.symm htext ?_
    rw [InputSource.consume_times_add]
    rfl

-- Punctuation is written with the next characters of the source.
theorem punctuation_kind_spells {second third : Option Char} {kind : TokenKind}
    (h : punctuation_kind c second third = some kind) :
    kind.has_span_end = false ∧ kind ≠ .spanEnd ∧ (kind.token_chars.toList = [c] ∨
      (∃ d, second = some d ∧ kind.token_chars.toList = [c, d]) ∨
      ∃ d e, second = some d ∧ third = some e ∧ kind.token_chars.toList = [c, d, e]) := by
  have hall : ∀ kind ∈ punctuation_kind c second third,
      kind.has_span_end = false ∧ kind ≠ .spanEnd ∧ (kind.token_chars.toList = [c] ∨
        (∃ d, second = some d ∧ kind.token_chars.toList = [c, d]) ∨
        ∃ d e, second = some d ∧ third = some e ∧ kind.token_chars.toList = [c, d, e]) := by
    unfold punctuation_kind
    split <;> intro kind hk <;> (try split at hk) <;> (try split at hk) <;> (try split at hk) <;>
      cases hk <;> refine ⟨rfl, by decide, ?_⟩ <;>
      first
        | exact .inl rfl
        | exact .inr (.inl ⟨_, by assumption, rfl⟩)
        | exact .inr (.inr ⟨_, _, by assumption, by assumption, rfl⟩)
  exact hall kind h

-- What a lexeme is made of that is written with the next characters of the source.
inductive Scans (source : InputSource) (n : Nat) (source' : InputSource) : Lexeme → Prop
  | spanned {kind opens} : kind.has_span_end = true →
    Scans source n source' (.tokens (spanned kind source.pos source'.pos) opens)
  | line_comment {tokens} : source.input.take 2 = ['/', '/'] → LineComment source source' tokens →
    Scans source n source' (.tokens tokens none)
  | pound : source.input.take n = ['#'] → Scans source n source' (.tokens [⟨.pound, source.pos⟩] none)
  | whitespace {contained_newline} : (∀ c ∈ source.input.take n, is_whitespace c = true) →
    Scans source n source' (.whitespace contained_newline)
  | punctuation {kind} : kind.has_span_end = false → kind ≠ .spanEnd →
    source.input.take n = kind.token_chars.toList → Scans source n source' (.punctuation ⟨kind, source.pos⟩)

theorem LineComment.advances {tokens : List BufferToken} (h : LineComment source source' tokens)
    (hc : source.next = some c) : ∃ n, Advances source source' n := by
  obtain ⟨input, hi⟩ := input_of_next hc
  cases h with
  | newline text rest ht _ he =>
    refine ⟨text.length + 1, Nat.le_add_left _ _, ?_, he⟩
    rw [ht, List.length_append, List.length_cons]
    omega
  | file _ he =>
    refine ⟨source.input.length, ?_, Nat.le_refl _, he⟩
    rw [hi]
    exact Nat.le_add_left _ _

theorem consume_pragma_or_pound_scans {was_pragma : Bool} {tokens : List BufferToken} (hc : source.next = some '#')
    (h : consume_pragma_or_pound source = .ok (was_pragma, tokens, source')) :
    ∃ n, Advances source source' n ∧
      Scans source n source' (.tokens tokens (if was_pragma then some .pragma else none)) := by
  obtain ⟨input, hi⟩ := input_of_next hc
  rw [consume_pragma_or_pound] at h
  cases hn : source.consume.next with
  | none =>
    rw [hn] at h
    cases h
    exact ⟨1, .of_rest (n := 0) hc (Nat.zero_le _), .pound (by rw [hi]; rfl)⟩
  | some d =>
    by_cases hd : is_identifier_start d = true
    case pos =>
      rw [hn, Option.any_some, if_pos hd] at h
      obtain ⟨_, _, h⟩ := Except.bind_eq_ok.mp h
      cases h
      have hadvances := Advances.consume_while hn is_identifier_remaining
      rw [hadvances.eq]
      exact ⟨_, .of_rest hc hadvances.le, .spanned rfl⟩
    case neg =>
      rw [hn, Option.any_some, if_neg hd] at h
      cases h
      exact ⟨1, .of_rest (n := 0) hc (Nat.zero_le _), .pound (by rw [hi]; rfl)⟩

theorem maybe_parse_punctuation_scans {kind : TokenKind} (hc : source.next = some c)
    (h : maybe_parse_punctuation c source = .ok (some kind, source')) :
    ∃ n, Advances source source' n ∧ Scans source n source' (.punctuation ⟨kind, source.pos⟩) := by
  obtain ⟨input, hi⟩ := input_of_next hc
  rw [maybe_parse_punctuation] at h
  cases hk : punctuation_kind c (source.lookahead 1) (source.lookahead 2) with
  | none =>
    rw [hk] at h
    obtain ⟨_, _, h⟩ := Except.bind_eq_ok.mp h
    cases h
  | some token_kind =>
    rw [hk] at h
    cases h
    obtain ⟨hspan, hend, hspell⟩ := punctuation_kind_spells hk
    have htake : source.input.take kind.token_chars.length = kind.token_chars.toList ∧
        1 ≤ kind.token_chars.length ∧ kind.token_chars.length ≤ source.input.length := by
      rw [← String.length_toList]
      obtain hs | ⟨d, h₁, hs⟩ | ⟨d, e, h₁, h₂, hs⟩ := hspell <;> rw [hs, hi]
      · simp
      · rw [InputSource.lookahead, hi] at h₁
        obtain ⟨rest, rfl⟩ := List.head?_eq_some_iff.mp (List.head?_eq_getElem?.trans h₁)
        simp
      · rw [InputSource.lookahead, hi] at h₁ h₂
        obtain ⟨rest, rfl⟩ := List.head?_eq_some_iff.mp (List.head?_eq_getElem?.trans h₁)
        obtain ⟨rest, rfl⟩ := List.head?_eq_some_iff.mp (List.head?_eq_getElem?.trans h₂)
        simp
    exact ⟨_, ⟨htake.2.1, htake.2.2, rfl⟩, .punctuation hspan hend htake.1⟩

-- What is consumed in a round, and what is made of it.
theorem consume_lexeme_scans {lexeme : Lexeme} (hc : source.next = some c)
    (h : consume_lexeme c source = .ok (lexeme, source')) :
    ∃ n, Advances source source' n ∧ Scans source n source' lexeme := by
  obtain ⟨input, hi⟩ := input_of_next hc
  unfold consume_lexeme at h
  split at h
  case isTrue =>
    obtain ⟨⟨tokens, source₁⟩, ht, h⟩ := Except.bind_eq_ok.mp h
    cases h
    obtain ⟨rfl, n, hn, _⟩ := consume_char_literal_advances hc ht
    exact ⟨n, hn, .spanned rfl⟩
  split at h
  case isTrue =>
    obtain ⟨⟨tokens, source₁⟩, ht, h⟩ := Except.bind_eq_ok.mp h
    cases h
    obtain ⟨rfl, n, hn⟩ := consume_string_literal_advances hc ht
    exact ⟨n, hn, .spanned rfl⟩
  split at h
  case isTrue =>
    obtain ⟨⟨ident, tokens, source₁⟩, ht, h⟩ := Except.bind_eq_ok.mp h
    cases h
    obtain ⟨rfl, n, hn⟩ := consume_identifier_advances hc ht
    exact ⟨n, hn, .spanned rfl⟩
  split at h
  case isTrue =>
    obtain ⟨⟨tokens, source₁⟩, ht, h⟩ := Except.bind_eq_ok.mp h
    cases h
    obtain ⟨rfl, n, hn⟩ := consume_number_advances hc ht
    exact ⟨n, hn, .spanned rfl⟩
  split at h
  case isTrue hp =>
    obtain ⟨⟨was_pragma, tokens, source₁⟩, ht, h⟩ := Except.bind_eq_ok.mp h
    cases h
    obtain rfl : c = '#' := of_decide_eq_true hp
    exact consume_pragma_or_pound_scans hc ht
  split at h
  case isTrue hl =>
    cases h
    obtain ⟨h₀, h₁⟩ := Bool.and_eq_true_iff.mp hl
    obtain rfl : c = '/' := of_decide_eq_true h₀
    have h₁ : source.input[1]? = some '/' := of_decide_eq_true h₁
    rw [hi] at h₁
    obtain ⟨rest, rfl⟩ := List.head?_eq_some_iff.mp (List.head?_eq_getElem?.trans h₁)
    have hcomment : LineComment source (consume_line_comment source).2 (consume_line_comment source).1 :=
      consume_line_comment_eq rfl
    obtain ⟨n, hn⟩ := hcomment.advances hc
    exact ⟨n, hn, .line_comment (by rw [hi]; rfl) hcomment⟩
  split at h
  case isTrue hl =>
    obtain ⟨⟨tokens, source₁⟩, ht, h⟩ := Except.bind_eq_ok.mp h
    cases h
    obtain ⟨_, h₁⟩ := Bool.and_eq_true_iff.mp hl
    have hlen : 2 ≤ source.input.length :=
      (List.getElem?_eq_some_iff.mp (of_decide_eq_true h₁ : source.input[1]? = some '*')).1
    obtain ⟨rfl, n, hn⟩ := consume_block_comment_advances hc hlen ht
    exact ⟨n, hn, .spanned rfl⟩
  split at h
  case isTrue hw =>
    cases h
    refine ⟨(source.input.takeWhile is_whitespace).length, ⟨?_, ?_, InputSource.consume_while_eq _ _⟩, .whitespace ?_⟩
    · rw [hi, List.takeWhile_cons, if_pos hw]
      exact Nat.le_add_left _ _
    · exact (List.takeWhile_prefix _).length_le
    · rw [List.prefix_iff_eq_take.mp (List.takeWhile_prefix _) |>.symm]
      exact List.all_eq_true.mp List.all_takeWhile
  case isFalse =>
    obtain ⟨⟨was_punctuation, source₁⟩, ht, h⟩ := Except.bind_eq_ok.mp h
    cases was_punctuation with
    | none => cases h
    | some token =>
      cases h
      exact maybe_parse_punctuation_scans hc ht

theorem Advances.length_lt {n : Nat} (h : Advances source source' n) :
    source'.input.length < source.input.length := by
  have hpos := h.pos
  have hle := h.le
  rw [h.eq, InputSource.input_consume_times, List.length_drop]
  omega

-- The only error that a source takes along with it is the one about carriage returns.
theorem had_error_consume_times (n : Nat) (h : ∀ message ∈ source.had_error, message = InputSource.carriage_message) :
    ∀ message ∈ (source.consume_times n).had_error, message = InputSource.carriage_message := by
  induction n generalizing source with
  | zero => exact h
  | succ n ih =>
    refine ih fun message hm => ?_
    cases hi : source.input with
    | nil => exact h message (InputSource.consume_nil hi ▸ hm)
    | cons c input =>
      simp only [InputSource.consume, hi] at hm
      split at hm
      case isTrue =>
        cases he : source.had_error with
        | none =>
          rw [he] at hm
          exact (Option.some.inj hm).symm
        | some other =>
          rw [he] at hm
          exact h message (he ▸ hm)
      case isFalse => exact h message hm

section

variable {initial pass pass' : PassTokenizer} {whole : List Char} {target target' : TokenBuffer} {fuel : Nat}

theorem Reaches.reads (h : Reaches initial whole pass target source) : source.Reads whole := by
  induction h with
  | start => exact .new whole
  | round _ hc hl _ ih =>
    obtain ⟨n, hn, _⟩ := consume_lexeme_scans hc hl
    rw [hn.eq]
    exact ih.consume_times n

theorem Reaches.had_error (h : Reaches initial whole pass target source) :
    ∀ message ∈ source.had_error, message = InputSource.carriage_message := by
  induction h with
  | start =>
    intro message hm
    cases hm
  | round _ hc hl _ ih =>
    obtain ⟨n, hn, _⟩ := consume_lexeme_scans hc hl
    rw [hn.eq]
    exact had_error_consume_times n ih

theorem tokenize_rounds_succ (hc : source.next = some c) :
    tokenize_rounds (fuel + 1) pass target source =
      consume_lexeme c source >>= fun (lexeme, source) =>
        pass.visit_lexeme target lexeme >>= fun (pass, target) => tokenize_rounds fuel pass target source := by
  rw [tokenize_rounds, hc]

theorem Reaches.of_tokenize_rounds (h : Reaches initial whole pass target source)
    (he : tokenize_rounds fuel pass target source = .ok (pass', target', source')) :
    Reaches initial whole pass' target' source' ∧ source'.next = none := by
  induction fuel generalizing pass target source with
  | zero => cases he
  | succ fuel ih =>
    cases hc : source.next with
    | none =>
      rw [tokenize_rounds, hc] at he
      cases he
      exact ⟨h, hc⟩
    | some c =>
      rw [tokenize_rounds_succ hc] at he
      obtain ⟨⟨lexeme, source₁⟩, hl, he⟩ := Except.bind_eq_ok.mp he
      obtain ⟨⟨pass₁, target₁⟩, hv, he⟩ := Except.bind_eq_ok.mp he
      exact ih (h.round hc hl hv) he

-- An error is made at some state that the main loop comes to.
theorem Reaches.of_tokenize_rounds_error {e : Failure} (h : Reaches initial whole pass target source)
    (hf : source.input.length < fuel) (he : tokenize_rounds fuel pass target source = .error e) :
    ∃ pass target source c, Reaches initial whole pass target source ∧ source.next = some c ∧
      (consume_lexeme c source = .error e ∨ ∃ lexeme source', consume_lexeme c source = .ok (lexeme, source') ∧
        pass.visit_lexeme target lexeme = .error e) := by
  induction fuel generalizing pass target source with
  | zero => exact absurd hf (Nat.not_lt_zero _)
  | succ fuel ih =>
    cases hc : source.next with
    | none =>
      rw [tokenize_rounds, hc] at he
      cases he
    | some c =>
      rw [tokenize_rounds_succ hc] at he
      cases hl : consume_lexeme c source with
      | error e' =>
        rw [hl] at he
        cases he
        exact ⟨pass, target, source, c, h, hc, .inl hl⟩
      | ok lexed =>
        obtain ⟨lexeme, source₁⟩ := lexed
        rw [hl, Except.ok_bind] at he
        simp only [] at he
        cases hv : pass.visit_lexeme target lexeme with
        | error e' =>
          rw [hv] at he
          cases he
          exact ⟨pass, target, source, c, h, hc, .inr ⟨lexeme, source₁, hl, hv⟩⟩
        | ok visited =>
          obtain ⟨pass₁, target₁⟩ := visited
          rw [hv, Except.ok_bind] at he
          obtain ⟨n, hn, _⟩ := consume_lexeme_scans hc hl
          exact ih (h.round hc hl hv) (Nat.lt_of_lt_of_le hn.length_lt (Nat.lt_succ_iff.mp hf)) he

-- The rest of the main loop is all that there is still to do.
theorem Reaches.tokenize_rounds_eq (h : Reaches initial whole pass target source) :
    ∃ fuel, source.input.length < fuel ∧
      tokenize_rounds (whole.length + 1) initial ⟨[], [module_range]⟩ (.new whole) =
        tokenize_rounds fuel pass target source := by
  induction h with
  | start => exact ⟨_, Nat.lt_succ_self _, rfl⟩
  | round _ hc hl hv ih =>
    obtain ⟨fuel, hf, heq⟩ := ih
    obtain ⟨n, hn, _⟩ := consume_lexeme_scans hc hl
    have hlt := hn.length_lt
    cases fuel with
    | zero => exact absurd hf (Nat.not_lt_zero _)
    | succ fuel =>
      refine ⟨fuel, by omega, heq.trans ?_⟩
      rw [tokenize_rounds_succ hc, hl, Except.ok_bind]
      simp only [hv, Except.ok_bind]

end

-- The tokens that a lexeme puts into the buffer.
def Lexeme.pushed : Lexeme → List BufferToken
  | .tokens buffered _ => buffered
  | .whitespace _      => []
  | .punctuation token => [token]

section

variable {initial pass pass' : PassTokenizer} {whole : List Char} {target target' buffer : TokenBuffer} {fuel : Nat}

theorem visit_lexeme_tokens {lexeme : Lexeme} (h : pass.visit_lexeme target lexeme = .ok (pass', target')) :
    target'.tokens = target.tokens ++ lexeme.pushed := by
  cases lexeme with
  | tokens tokens opens =>
    cases opens with
    | some range_kind =>
      obtain ⟨_, _, h⟩ := Except.bind_eq_ok.mp h
      cases h
      rfl
    | none =>
      cases h
      rfl
  | whitespace contained_newline =>
    cases contained_newline with
    | true =>
      obtain ⟨_, _, h⟩ := Except.bind_eq_ok.mp h
      cases h
      exact (List.append_nil _).symm
    | false =>
      cases h
      exact (List.append_nil _).symm
  | punctuation token =>
    simp only [visit_lexeme] at h
    split at h
    case h_1 =>
      cases h
      rfl
    case h_2 =>
      split at h
      case h_1 => cases h
      case h_2 =>
        obtain ⟨_, _, h⟩ := Except.bind_eq_ok.mp h
        cases h
        rfl
    case h_3 =>
      obtain ⟨_, _, h⟩ := Except.bind_eq_ok.mp h
      cases h
      rfl
    case h_4 =>
      cases h
      rfl

theorem tokenize_rounds_tokens (h : tokenize_rounds fuel pass target source = .ok (pass', target', source')) :
    target.tokens <+: target'.tokens := by
  induction fuel generalizing pass target source with
  | zero => cases h
  | succ fuel ih =>
    cases hc : source.next with
    | none =>
      rw [tokenize_rounds, hc] at h
      cases h
      exact List.prefix_rfl
    | some c =>
      rw [tokenize_rounds_succ hc] at h
      obtain ⟨⟨lexeme, source₁⟩, _, h⟩ := Except.bind_eq_ok.mp h
      obtain ⟨⟨pass₁, target₁⟩, hv, h⟩ := Except.bind_eq_ok.mp h
      refine List.IsPrefix.trans ?_ (ih h)
      rw [visit_lexeme_tokens hv]
      exact List.prefix_append _ _

theorem finish_tokens (h : pass.finish target source = .ok buffer) : buffer.tokens = target.tokens := by
  rw [finish] at h
  cases he : source.had_error with
  | some message =>
    rw [he] at h
    cases h
  | none =>
    rw [he] at h
    simp only [] at h
    split at h
    case isTrue => cases h
    case isFalse =>
      obtain ⟨ranges, _, h⟩ := Except.bind_eq_ok.mp h
      obtain ⟨range, _, h⟩ := Except.bind_eq_ok.mp h
      split at h
      case isTrue =>
        obtain ⟨_, _, h⟩ := Except.bind_eq_ok.mp h
        cases h
        rfl
      case isFalse =>
        cases h
        rfl

end

-- What does not succeed is an error of some kind.
def FailsWith {α : Type} (p : Failure → Prop) (x : Except Failure α) : Prop := ∀ e, x = .error e → p e

namespace FailsWith

variable {α β : Type} {p : Failure → Prop}

theorem ok (a : α) : FailsWith p (.ok a) := by
  intro e h
  cases h

theorem error {e : Failure} (h : p e) : FailsWith p (.error e : Except Failure α) := by
  intro e' he
  cases he
  exact h

theorem bind {x : Except Failure α} {f : α → Except Failure β} (hx : FailsWith p x) (hf : ∀ a, FailsWith p (f a)) :
    FailsWith p (x >>= f) := by
  intro e h
  cases x with
  | ok a => exact hf a e h
  | error e' =>
    cases h
    exact hx _ rfl

theorem ite {c : Prop} [Decidable c] {x y : Except Failure α} (hx : FailsWith p x) (hy : FailsWith p y) :
    FailsWith p (if c then x else y) := by
  split
  · exact hx
  · exact hy

end FailsWith

section

variable {p : Failure → Prop} {pass : PassTokenizer} {target : TokenBuffer} {ranges : List TokenRange}

-- The ranges of the pass can be out of bounds, and there is no other error that they give rise to.
theorem get_range_fails (hp : p .panic) (idx : Nat) : FailsWith p (get_range ranges idx) := by
  rw [get_range]
  cases ranges[idx]? with
  | none   => exact .error hp
  | some _ => exact .ok _

theorem fix_up_sibling_fails (hp : p .panic) (sibling_idx : Option Nat) (next_idx : Nat) :
    FailsWith p (fix_up_sibling ranges sibling_idx next_idx) := by
  cases sibling_idx with
  | none   => exact .ok _
  | some _ => exact (get_range_fails hp _).bind fun _ => .ok _

theorem add_code_range_fails (hp : p .panic) (curly_depth parent_idx code_start_idx code_end_idx : Nat)
    (next_sibling_idx : Option Nat) :
    FailsWith p (add_code_range curly_depth ranges parent_idx code_start_idx code_end_idx next_sibling_idx) :=
  (get_range_fails hp _).bind fun _ => fix_up_sibling_fails hp _ _

theorem push_range_fails (hp : p .panic) (range_kind : TokenRangeKind) (first_token_idx : Nat) :
    FailsWith p (pass.push_range ranges range_kind first_token_idx) :=
  (get_range_fails hp _).bind fun _ =>
    .ite ((add_code_range_fails hp _ _ _ _ _).bind fun _ => .ok _) (.bind (.ok _) fun _ => .ok _)

theorem pop_range_fails (hp : p .panic) (end_token_idx : Nat) :
    FailsWith p (pass.pop_range ranges end_token_idx) := by
  refine (get_range_fails hp _).bind fun range => ?_
  simp only []
  cases range.parent_idx with
  | none   => exact .error hp
  | some _ => exact (get_range_fails hp _).bind fun _ => (fix_up_sibling_fails hp _ _).bind fun _ => .ok _

theorem pop_range_if_fails (hp : p .panic) (q : TokenRange → Bool) (end_token_idx : Nat) :
    FailsWith p (pop_range_if q pass ranges end_token_idx) :=
  (get_range_fails hp _).bind fun _ => .ite (pop_range_fails hp _) (.ok _)

theorem visit_lexeme_fails (hp : p .panic) (hc : p (.parseError "unmatched closing curly brace '\x7d'"))
    (lexeme : Lexeme) : FailsWith p (pass.visit_lexeme target lexeme) := by
  cases lexeme with
  | tokens tokens opens =>
    cases opens with
    | none   => exact .ok _
    | some _ => exact (push_range_fails hp _ _).bind fun _ => .ok _
  | whitespace contained_newline =>
    exact .ite ((pop_range_if_fails hp _ _).bind fun _ => .ok _) (.bind (.ok _) fun _ => .ok _)
  | punctuation token =>
    simp only [visit_lexeme]
    split
    case h_1 => exact .ok _
    case h_2 =>
      split
      case h_1 => exact .error hc
      case h_2 => exact (pop_range_if_fails hp _ _).bind fun _ => .ok _
    case h_3 => exact (pop_range_if_fails hp _ _).bind fun _ => .ok _
    case h_4 => exact .ok _

theorem pop_ranges_fails (hp : p .panic) (hf : p .fuel) (fuel : Nat) (end_token_idx : Nat) :
    FailsWith p (pop_ranges fuel pass ranges end_token_idx) := by
  induction fuel generalizing pass ranges with
  | zero => exact .error hf
  | succ fuel ih => exact .ite ((pop_range_fails hp _).bind fun _ => ih) (.ok _)

theorem finish_fails (hp : p .panic) (hf : p .fuel) (ho : p (.parseError "unmatched opening curly brace '\x7b'"))
    (hs : ∀ message ∈ source.had_error, p (.parseError message)) : FailsWith p (pass.finish target source) := by
  rw [finish]
  cases he : source.had_error with
  | some message => exact .error (hs message he)
  | none =>
    refine .ite (.error ho) ((pop_ranges_fails hp hf _ _).bind fun _ => (get_range_fails hp _).bind fun _ => ?_)
    exact .ite ((add_code_range_fails hp _ _ _ _ _).bind fun _ => .ok _) (.ok _)

-- The texts of the errors of a lexeme, but for those of a string.
def OutsideStrings (message : String) : Prop :=
  message ∈ ["non-ASCII character in char literal", "encountered unterminated character literal",
    "encountered a non-ASCII character", "encountered unterminated block comment", "unexpected character"]

instance (message : String) : Decidable (OutsideStrings message) := inferInstanceAs (Decidable (_ ∈ _))

theorem check_ascii_fails (hp : ∀ message, OutsideStrings message → p (.parseError message)) :
    FailsWith p (check_ascii source) := by
  rw [check_ascii]
  cases source.next with
  | none   => exact .ok _
  | some _ => exact .ite (.ok _) (.error (hp _ (by simp [OutsideStrings])))

theorem consume_char_literal_fails (hp : ∀ message, OutsideStrings message → p (.parseError message)) :
    FailsWith p (consume_char_literal source) := by
  have hrest (input : List Char) (prev_char : Char) (source : InputSource) :
      FailsWith p (consume_char_literal_rest input prev_char source) := by
    induction input generalizing prev_char source with
    | nil => exact .ok _
    | cons c input ih => exact .ite (.ite (.ok _) (ih _ _)) (.error (hp _ (by simp [OutsideStrings])))
  exact (hrest _ _ _).bind fun _ => .ite (.ok _) (.error (hp _ (by simp [OutsideStrings])))

theorem consume_lexeme_fails (hp : ∀ message, OutsideStrings message → p (.parseError message))
    (hs : c = '"' → FailsWith p (consume_string_literal source)) : FailsWith p (consume_lexeme c source) := by
  refine .ite ((consume_char_literal_fails hp).bind fun _ => .ok _) ?_
  intro e he
  by_cases hstring : is_string_literal_start c = true
  case pos =>
    rw [if_pos hstring] at he
    exact (hs (of_decide_eq_true hstring)).bind (fun _ => .ok _) e he
  case neg =>
    rw [if_neg hstring] at he
    refine FailsWith.ite (.bind (.bind (check_ascii_fails hp) fun _ => .ok _) fun _ => .ok _) ?_ e he
    refine .ite (.bind (.bind (check_ascii_fails hp) fun _ => .ok _) fun _ => .ok _) ?_
    refine .ite (.bind (.ite (.bind (check_ascii_fails hp) fun _ => .ok _) (.ok _)) fun _ => .ok _) ?_
    refine .ite (.ok _) (.ite (.bind ?_ fun _ => .ok _) (.ite (.ok _) (.bind ?_ fun punctuation => ?_)))
    · rw [consume_block_comment]
      cases consume_block_comment_rest source.consume.consume.input ' ' source.consume.consume with
      | none   => exact .error (hp _ (by simp [OutsideStrings]))
      | some _ => exact .ok _
    · rw [maybe_parse_punctuation]
      cases punctuation_kind c (source.lookahead 1) (source.lookahead 2) with
      | none   => exact (check_ascii_fails hp).bind fun _ => .ok _
      | some _ => exact .ok _
    · obtain ⟨was_punctuation, source₁⟩ := punctuation
      cases was_punctuation with
      | none   => exact .error (hp _ (by simp [OutsideStrings]))
      | some _ => exact .ok _

end

end Reowolf.Parser.PassTokenizer
