import Reowolf.Parser.ExpressionLiterals
import Reowolf.Parser.StringBoundaries

namespace Reowolf.Parser

-- The tokens of a buffer the way that the passes behind the tokenizer read them. Of the token before
-- there is the offset of its end.
def token_iter (whole : List Char) : (last_end : Nat) → List BufferToken → TokenIter
  | _, [] => []
  | last_end, [token] =>
    [⟨token.kind, "", String.ofList (InputSource.section_at_pos whole ⟨0, last_end⟩ token.pos)⟩]
  | last_end, token :: next :: tokens =>
    let gap := String.ofList (InputSource.section_at_pos whole ⟨0, last_end⟩ token.pos)
    if token.kind.is_comment then
      token_iter whole last_end tokens
    else if token.kind.has_span_end then
      ⟨token.kind, String.ofList (InputSource.section_at_pos whole token.pos next.pos), gap⟩ ::
        token_iter whole next.pos.offset tokens
    else
      ⟨token.kind, "", gap⟩ ::
        token_iter whole (token.pos.offset + token.kind.token_chars.length) (next :: tokens)

theorem token_iter_spanned (whole : List Char) (last_end : Nat) {kind : TokenKind} (hs : kind.has_span_end = true)
    (hc : kind.is_comment = false) (begin_pos end_pos : InputPosition) (tokens : List BufferToken) :
    token_iter whole last_end (spanned kind begin_pos end_pos ++ tokens) =
      ⟨kind, String.ofList (InputSource.section_at_pos whole begin_pos end_pos),
        String.ofList (InputSource.section_at_pos whole ⟨0, last_end⟩ begin_pos)⟩ ::
        token_iter whole end_pos.offset tokens := by
  rw [spanned, List.cons_append, List.cons_append, List.nil_append, token_iter, if_neg (by rw [hc]; decide), if_pos hs]

-- A file with nothing but a literal in it is tokenized, and the literal stands for the value.
def DecodesString (literal value : List Char) : Prop :=
  ∃ buffer, PassTokenizer.tokenize literal = .ok buffer ∧
    consume_string_literal (token_iter literal 0 buffer.tokens) = .ok (String.ofList value, [])

def DecodesCharacter (literal : List Char) (value : Char) : Prop :=
  ∃ buffer, PassTokenizer.tokenize literal = .ok buffer ∧
    consume_character_literal (token_iter literal 0 buffer.tokens) = .ok (value, [])

-- How a character is written between quotation marks: as it is, or as an escape.
inductive Writes (quote value : Char) : List Char → Prop
  | plain : ' ' ≤ value → value ≤ '~' → value ≠ quote → value ≠ '\\' → Writes quote value [value]
  | escaped (v : Char) : parse_escaped_character v = .ok value → Writes quote value ['\\', v]

variable {value : List Char} {texts : List (List Char)}

theorem escaped_mem {v c : Char} (h : parse_escaped_character v = .ok c) :
    v ∈ ['r', 'n', 't', '0', '\\', '\'', '"'] := by
  unfold parse_escaped_character at h
  split at h
  case h_8 => split at h <;> cases h
  all_goals decide

namespace Writes

variable {quote c : Char} {text : List Char}

theorem chars (hq : Writes quote c text) : ∀ d ∈ text, d.toNat < 128 ∧ d ≠ '\r' := by
  cases hq with
  | plain h₀ h₁ _ _ =>
    intro d hd
    cases List.mem_singleton.mp hd
    have hle : c.toNat ≤ 126 := UInt32.le_iff_toNat_le.mp (Char.le_def.mp h₁)
    refine ⟨by omega, ?_⟩
    rintro rfl
    exact absurd h₀ (by decide)
  | escaped v hv =>
    have hall : ∀ d ∈ ['r', 'n', 't', '0', '\\', '\'', '"'], d.toNat < 128 ∧ d ≠ '\r' := by
      simp only [List.forall_mem_cons, List.not_mem_nil, false_implies, implies_true, and_true]
      decide
    intro d hd
    cases List.mem_cons.mp hd with
    | inl h =>
      subst h
      decide
    | inr h => exact hall d (List.mem_singleton.mp h ▸ escaped_mem hv)

theorem was_escape (hq : Writes quote c text) : was_escape text = false := by
  cases hq with
  | plain _ _ _ hc => simp [Parser.was_escape, hc]
  | escaped v hv => simp [Parser.was_escape]

theorem quotes (hq : Writes quote c text) (m : Nat) (hm : text[m]? = some quote) (hne : quote ≠ '\\') :
    Parser.was_escape (text.take m) = true := by
  cases hq with
  | plain _ _ hc _ =>
    cases m with
    | zero   => exact absurd (Option.some.inj hm) hc
    | succ m => cases hm
  | escaped v hv =>
    cases m with
    | zero   => exact absurd (Option.some.inj hm).symm hne
    | succ m =>
      cases m with
      | zero   => rfl
      | succ m => cases hm

theorem length_pos (hq : Writes quote c text) : 1 ≤ text.length := by
  cases hq with
  | plain     => exact Nat.le_refl 1
  | escaped v => exact Nat.le_succ 1

end Writes

theorem was_escape_append {text : List Char} (h : was_escape text = false) (rest : List Char) :
    was_escape (text ++ rest) = was_escape rest := by
  rw [was_escape, List.foldl_append]
  exact congrArg (fun flag => rest.foldl (fun was_escape cur => cur = '\\' && !was_escape) flag) h

-- What is written for a value does not end in the middle of an escape, and there is no quotation mark in
-- it that ends the string.
theorem written_open {quote : Char} (h : List.Forall₂ (Writes quote) value texts) (hne : quote ≠ '\\') :
    was_escape texts.flatten = false ∧
      (∀ m, texts.flatten[m]? = some quote → was_escape (texts.flatten.take m) = true) ∧
      ∀ c ∈ texts.flatten, c.toNat < 128 ∧ c ≠ '\r' := by
  induction h with
  | nil => exact ⟨rfl, fun m hm => (by cases hm), fun c hc => (by cases hc)⟩
  | @cons c text value texts hq _ ih =>
    obtain ⟨he, hquotes, hchars⟩ := ih
    rw [List.flatten_cons]
    refine ⟨(was_escape_append hq.was_escape _).trans he, fun m hm => ?_, fun d hd => ?_⟩
    · by_cases hlt : m < text.length
      case pos =>
        rw [List.getElem?_append_left hlt] at hm
        rw [List.take_append_of_le_length (Nat.le_of_lt hlt)]
        exact hq.quotes m hm hne
      case neg =>
        have hge := Nat.not_lt.mp hlt
        rw [List.getElem?_append_right hge] at hm
        rw [List.take_append, List.take_of_length_le hge, was_escape_append hq.was_escape]
        exact hquotes _ hm
    · cases List.mem_append.mp hd with
      | inl hd => exact hq.chars d hd
      | inr hd => exact hchars d hd

-- Every escape makes what is written longer than the value.
theorem written_length {quote : Char} (h : List.Forall₂ (Writes quote) value texts) :
    value.length ≤ texts.flatten.length ∧
      (value.length = texts.flatten.length → ∀ text ∈ texts, text.length = 1) := by
  induction h with
  | nil => exact ⟨Nat.le_refl _, fun _ text ht => (by cases ht)⟩
  | @cons c text value texts hq _ ih =>
    obtain ⟨hle, hall⟩ := ih
    have hpos := hq.length_pos
    rw [List.flatten_cons, List.length_append, List.length_cons]
    refine ⟨by omega, fun heq other hm => ?_⟩
    cases List.mem_cons.mp hm with
    | inl he =>
      subst he
      omega
    | inr hm => exact hall (by omega) other hm

-- The parser pushes a character for each one that it reads, for an escape two of them.
theorem push_characters_written {quote : Char} (h : List.Forall₂ (Writes quote) value texts) :
    ∃ pushed, push_characters false texts.flatten = .ok pushed ∧ pushed.length = texts.flatten.length ∧
      ((∀ text ∈ texts, text.length = 1) → pushed = value) := by
  induction h with
  | nil => exact ⟨[], rfl, rfl, fun _ => rfl⟩
  | @cons c text value texts hq _ ih =>
    obtain ⟨pushed, hpush, hlen, hvalue⟩ := ih
    cases hq with
    | plain _ _ _ hc =>
      refine ⟨c :: pushed, ?_, congrArg (· + 1) hlen, fun hall => ?_⟩
      · simp [push_characters, hc, hpush, bind, Except.bind]
      · rw [hvalue fun text ht => hall text (List.mem_cons_of_mem _ ht)]
    | escaped v hv =>
      refine ⟨'\\' :: c :: pushed, ?_, congrArg (· + 2) hlen, fun hall => ?_⟩
      · simp [push_characters, hv, hpush, bind, Except.bind]
      · cases hall _ List.mem_cons_self

namespace PassTokenizer

variable {whole : List Char} {tokens : List BufferToken} {source source' : InputSource} {c : Char}

theorem had_error_consume_times_eq (n : Nat) (h : '\r' ∉ source.input) :
    (source.consume_times n).had_error = source.had_error := by
  induction n generalizing source with
  | zero => rfl
  | succ n ih =>
    have htail : '\r' ∉ source.consume.input := by
      rw [InputSource.input_consume]
      exact fun hm => h (List.mem_of_mem_tail hm)
    refine (ih htail).trans ?_
    cases hi : source.input with
    | nil => rw [InputSource.consume_nil hi]
    | cons d input =>
      rw [InputSource.consume, hi]
      refine if_neg fun hd => h ?_
      rw [hi, hd.1]
      exact List.mem_cons_self

-- A file that is nothing but one lexeme.
theorem tokenize_single (hc : whole.head? = some c)
    (hl : consume_lexeme c (.new whole) = .ok (.tokens tokens none, source')) (hnone : source'.next = none)
    (he : source'.had_error = none) : ∃ buffer, tokenize whole = .ok buffer ∧ buffer.tokens = tokens := by
  obtain ⟨rest, rfl⟩ := List.head?_eq_some_iff.mp hc
  have hfinish : ∃ buffer, finish ⟨[], 0⟩ ⟨tokens, [module_range]⟩ source' = .ok buffer := by
    rw [finish, he]
    by_cases hn : 0 ≠ tokens.length
    case pos => exact ⟨_, if_pos hn⟩
    case neg => exact ⟨_, if_neg hn⟩
  obtain ⟨buffer, hfinish⟩ := hfinish
  refine ⟨buffer, ?_, finish_tokens hfinish⟩
  have hrounds : tokenize_rounds ((c :: rest).length + 1) ⟨[], 0⟩ ⟨[], [module_range]⟩ (.new (c :: rest)) =
      .ok (⟨[], 0⟩, ⟨tokens, [module_range]⟩, source') := by
    have hnext : (InputSource.new (c :: rest)).next = some c := hc
    rw [tokenize_rounds_succ hnext, hl, Except.ok_bind]
    change tokenize_rounds (rest.length + 1) ⟨[], 0⟩ ⟨tokens, [module_range]⟩ source' = _
    rw [tokenize_rounds, hnone]
  rw [tokenize, hrounds]
  exact hfinish

theorem closesAt_written (h : List.Forall₂ (Writes '"') value texts) :
    IsLeast {n | ClosesAt (texts.flatten ++ ['"']) n} texts.flatten.length := by
  obtain ⟨he, hquotes, _⟩ := written_open h (by decide)
  constructor
  · refine closesAt_iff.mpr ⟨List.getElem?_concat_length, ?_⟩
    rw [List.take_left']
    · exact he
    · rfl
  · intro m hm
    by_contra hlt
    have hlt := Nat.not_le.mp hlt
    obtain ⟨hq, hescape⟩ := closesAt_iff.mp hm
    rw [List.getElem?_append_left hlt] at hq
    rw [List.take_append_of_le_length (Nat.le_of_lt hlt), hquotes m hq] at hescape
    cases hescape

-- The whole of the literal becomes one token.
theorem tokenize_string (h : List.Forall₂ (Writes '"') value texts) :
    ∃ buffer, tokenize ('"' :: (texts.flatten ++ ['"'])) = .ok buffer ∧
      token_iter ('"' :: (texts.flatten ++ ['"'])) 0 buffer.tokens =
        [⟨.string, String.ofList ('"' :: (texts.flatten ++ ['"'])), ""⟩] := by
  obtain ⟨_, _, hchars⟩ := written_open h (by decide)
  have hlex : consume_lexeme '"' (.new ('"' :: (texts.flatten ++ ['"']))) =
      .ok (.tokens (spanned .string ⟨1, 0⟩
          ((InputSource.new ('"' :: (texts.flatten ++ ['"']))).consume_times (texts.flatten.length + 2)).pos) none,
        (InputSource.new ('"' :: (texts.flatten ++ ['"']))).consume_times (texts.flatten.length + 2)) := by
    rw [consume_lexeme_string, consume_string_literal_closed rfl (closesAt_written h) fun c hc => ?_]
    · rfl
    · rw [List.take_left'] at hc
      · exact (hchars c hc).1
      · rfl
  have hreturn : '\r' ∉ (InputSource.new ('"' :: (texts.flatten ++ ['"']))).input := by
    intro hm
    cases List.mem_cons.mp hm with
    | inl hm => cases hm
    | inr hm =>
      cases List.mem_append.mp hm with
      | inl hm => exact (hchars _ hm).2 rfl
      | inr hm => cases List.mem_singleton.mp hm
  have hlen : (InputSource.new ('"' :: (texts.flatten ++ ['"']))).input.length = texts.flatten.length + 2 := by
    simp [InputSource.new]
  obtain ⟨buffer, htok, htokens⟩ := tokenize_single rfl hlex
    (by rw [InputSource.next, InputSource.input_consume_times, List.drop_of_length_le (Nat.le_of_eq hlen)]; rfl)
    (had_error_consume_times_eq _ hreturn)
  refine ⟨buffer, htok, ?_⟩
  have hsection := (InputSource.Reads.new ('"' :: (texts.flatten ++ ['"']))).section_eq (Nat.le_of_eq hlen.symm)
  have htake : (InputSource.new ('"' :: (texts.flatten ++ ['"']))).input.take (texts.flatten.length + 2) =
      '"' :: (texts.flatten ++ ['"']) := by
    rw [← hlen, List.take_length]
    rfl
  rw [htake] at hsection
  rw [htokens, ← List.append_nil (spanned _ _ _), token_iter_spanned _ _ rfl rfl]
  exact congrArg (fun text => [(⟨.string, String.ofList text, ""⟩ : Token)]) hsection

theorem consume_character_literal_quote (d : Char) (text : List Char) (gap : String) (iter : TokenIter)
    (result : Char × TokenIter) :
    consume_character_literal (⟨.character, String.ofList ('\'' :: d :: text), gap⟩ :: iter) ≠ .ok result := by
  intro h
  simp only [consume_character_literal, if_true, String.toList_ofList] at h
  split at h
  case isTrue => cases h
  case isFalse =>
    cases text with
    | nil =>
      have hne : ('\'' : Char) ≠ '\\' := by decide
      cases (if_neg hne).symm.trans h
    | cons e text => cases h

-- The token of a character literal has its quotation marks in it, and that is more than one character.
theorem character_not_decoded (text : List Char) (c : Char) : ¬DecodesCharacter ('\'' :: (text ++ ['\''])) c := by
  rintro ⟨buffer, htok, hconsume⟩
  obtain ⟨⟨pass, target, source⟩, hrounds, hfinish⟩ := Except.bind_eq_ok.mp htok
  have hnext : (InputSource.new ('\'' :: (text ++ ['\'']))).next = some '\'' := rfl
  rw [tokenize_rounds_succ hnext] at hrounds
  obtain ⟨⟨lexeme, source₁⟩, hl, hvisit⟩ := Except.bind_eq_ok.mp hrounds
  obtain ⟨⟨pass₁, target₁⟩, hv, hrest⟩ := Except.bind_eq_ok.mp hvisit
  obtain ⟨⟨tokens, source₂⟩, ht, he⟩ := Except.bind_eq_ok.mp hl
  cases he
  obtain ⟨rfl, n, hn, htwo⟩ := consume_char_literal_advances hnext ht
  obtain ⟨more, hmore⟩ : target₁.tokens <+: buffer.tokens := by
    rw [finish_tokens hfinish]
    exact tokenize_rounds_tokens hrest
  -- There is a character behind the quotation mark, so that it is consumed too.
  obtain ⟨d, rest, htake⟩ : ∃ d rest, ('\'' :: (text ++ ['\''])).take n = '\'' :: d :: rest := by
    have hlen := htwo (List.append_ne_nil_of_right_ne_nil _ (List.cons_ne_nil _ _))
    obtain ⟨m, rfl⟩ := Nat.exists_eq_add_of_le' hlen
    cases text with
    | nil => exact ⟨'\'', _, rfl⟩
    | cons d text => exact ⟨d, _, rfl⟩
  have hsection := (InputSource.Reads.new ('\'' :: (text ++ ['\'']))).section_eq hn.le
  rw [← hn.eq] at hsection
  rw [← hmore, visit_lexeme_tokens hv, Lexeme.pushed, List.nil_append, token_iter_spanned _ _ rfl rfl, hsection] at hconsume
  exact consume_character_literal_quote d rest _ _ _ (htake ▸ hconsume)

end PassTokenizer

-- A string is decoded if it is written without escapes, and a character never is.
theorem literal_decoding_iff (value : List Char) (texts : List (List Char))
    (h : List.Forall₂ (Writes '"') value texts) :
    (DecodesString ('"' :: (texts.flatten ++ ['"'])) value ↔ ∀ text ∈ texts, text.length = 1) ∧
      ∀ text c, Writes '\'' c text → ¬DecodesCharacter ('\'' :: (text ++ ['\''])) c := by
  refine ⟨?_, fun text c _ => PassTokenizer.character_not_decoded text c⟩
  obtain ⟨buffer, htok, hiter⟩ := PassTokenizer.tokenize_string h
  obtain ⟨pushed, hpush, hlen, hvalue⟩ := push_characters_written h
  obtain ⟨_, _, hchars⟩ := written_open h (by decide)
  have hconsume : consume_string_literal (token_iter ('"' :: (texts.flatten ++ ['"'])) 0 buffer.tokens) =
      .ok (String.ofList pushed, []) := by
    have hascii : is_ascii ('"' :: (texts.flatten ++ ['"'])) = true := by
      refine List.all_eq_true.mpr fun c hc => decide_eq_true ?_
      cases List.mem_cons.mp hc with
      | inl hc => exact hc ▸ by decide
      | inr hc =>
        cases List.mem_append.mp hc with
        | inl hc => exact (hchars c hc).1
        | inr hc => exact List.mem_singleton.mp hc ▸ by decide
    simp only [hiter, consume_string_literal, if_true, String.toList_ofList, hascii, Bool.not_true,
      Bool.false_eq_true, if_false, List.tail_cons, List.dropLast_concat, hpush, Except.ok_bind]
  constructor
  case mp =>
    rintro ⟨buffer', htok', hconsume'⟩
    cases htok.symm.trans htok'
    have heq : pushed = value := by
      have hpair := Except.ok.inj (hconsume.symm.trans hconsume')
      exact String.ofList_injective (Prod.mk.inj hpair).1
    exact (written_length h).2 (heq ▸ hlen)
  case mpr =>
    intro hall
    exact ⟨buffer, htok, hvalue hall ▸ hconsume⟩

-- The literal `"a'"`.
theorem literal_decoding_plain :
    DecodesString ['"', 'a', '\'', '"'] ['a', '\''] ∧ ∀ text c, Writes '\'' c text →
      ¬DecodesCharacter ('\'' :: (text ++ ['\''])) c := by
  obtain ⟨hstring, hcharacter⟩ := literal_decoding_iff ['a', '\''] [['a'], ['\'']]
    (.cons (.plain (by decide) (by decide) (by decide) (by decide))
      (.cons (.plain (by decide) (by decide) (by decide) (by decide)) .nil))
  exact ⟨hstring.mpr (by decide), hcharacter⟩

-- Of the literal `"\n"` the parser keeps the backslash, and the literal `'a'` has too many characters for it.
theorem literal_not_decoded :
    (∃ buffer, PassTokenizer.tokenize ['"', '\\', 'n', '"'] = .ok buffer ∧
      consume_string_literal (token_iter ['"', '\\', 'n', '"'] 0 buffer.tokens) = .ok ("\\\n", [])) ∧
    (∃ buffer, PassTokenizer.tokenize ['\'', 'a', '\''] = .ok buffer ∧
      consume_character_literal (token_iter ['\'', 'a', '\''] 0 buffer.tokens) =
        .error (.parseError "too many characters in character literal")) ∧
    ¬DecodesString ['"', '\\', 'n', '"'] ['\n'] ∧ ¬DecodesCharacter ['\'', 'a', '\''] 'a' := by
  refine ⟨⟨_, rfl, rfl⟩, ⟨_, rfl, rfl⟩, ?_, PassTokenizer.character_not_decoded ['a'] 'a'⟩
  rintro ⟨buffer, htok, hconsume⟩
  cases htok
  exact absurd hconsume (by decide)

end Reowolf.Parser
