import Reowolf.Parser.TokenizerRuns

namespace Reowolf.Parser

-- Where the texts of the tokens begin and end. That of punctuation is as long as it is written.
def token_spans : List BufferToken → List (Nat × Nat)
  | [] => []
  | [token] => [(token.pos.offset, token.pos.offset + token.kind.token_chars.length)]
  | token :: next :: tokens =>
    if token.kind.has_span_end then
      (token.pos.offset, next.pos.offset) :: token_spans tokens
    else
      (token.pos.offset, token.pos.offset + token.kind.token_chars.length) :: token_spans (next :: tokens)

-- Texts that lie one behind the other from a place on, none of them empty.
structure Spaced (whole : List Char) (start : Nat) (spans : List (Nat × Nat)) : Prop where
  bounds   : ∀ span ∈ spans, start ≤ span.1 ∧ span.1 < span.2 ∧ span.2 ≤ whole.length
  disjoint : spans.Pairwise fun s t => s.2 ≤ t.1

-- From a place on there is nothing but whitespace outside the texts.
def Blank (whole : List Char) (start : Nat) (spans : List (Nat × Nat)) : Prop :=
  ∀ i c, start ≤ i → whole[i]? = some c → (∀ span ∈ spans, i < span.1 ∨ span.2 ≤ i) → is_whitespace c = true

-- Nothing is lost in tokens: what is outside of them is whitespace, and they are where they say.
structure Lossless (whole : List Char) (tokens : List BufferToken) : Prop where
  increasing : ((token_spans tokens).map Prod.fst).Pairwise (· < ·)
  disjoint   : (token_spans tokens).Pairwise fun s t => s.2 ≤ t.1
  spelled    : ∀ token ∈ tokens, token.kind.has_span_end = false → token.kind ≠ .spanEnd →
    (whole.drop token.pos.offset).take token.kind.token_chars.length = token.kind.token_chars.toList
  blank      : Blank whole 0 (token_spans tokens)
  lines      : ∀ token ∈ tokens, token.pos.Within whole

-- The last character of a line comment in front of its line end.
def last_of_line (text : List Char) : Option Char :=
  if text.getLast? = some '\r' then text.dropLast.getLast? else text.getLast?

-- A line comment that there is a newline behind has a blank at its end.
def EndsBlank (source : InputSource) : Prop :=
  source.input.take 2 = ['/', '/'] → '\n' ∈ source.input →
    ∀ c ∈ last_of_line (source.input.takeWhile (· ≠ '\n')), is_whitespace c = true

theorem Spaced.increasing {whole : List Char} {start : Nat} {spans : List (Nat × Nat)} (h : Spaced whole start spans) :
    (spans.map Prod.fst).Pairwise (· < ·) := by
  obtain ⟨hbounds, hdisjoint⟩ := h
  rw [List.pairwise_map]
  refine hdisjoint.imp_of_mem fun {s t} hs _ hst => ?_
  exact Nat.lt_of_lt_of_le (hbounds s hs).2.1 hst

theorem Spaced.cons {whole : List Char} {start first last next : Nat} {spans : List (Nat × Nat)}
    (h : Spaced whole next spans) (hf : start ≤ first) (hl : first < last) (hn : last ≤ next)
    (hw : last ≤ whole.length) (hs : start ≤ next) : Spaced whole start ((first, last) :: spans) := by
  constructor
  case bounds =>
    intro span hm
    cases List.mem_cons.mp hm with
    | inl he =>
      subst he
      exact ⟨hf, hl, hw⟩
    | inr hm =>
      obtain ⟨h₁, h₂, h₃⟩ := h.bounds span hm
      exact ⟨Nat.le_trans hs h₁, h₂, h₃⟩
  case disjoint =>
    refine List.pairwise_cons.mpr ⟨fun span hm => Nat.le_trans hn (h.bounds span hm).1, h.disjoint⟩

theorem Spaced.mono {whole : List Char} {start next : Nat} {spans : List (Nat × Nat)} (h : Spaced whole next spans)
    (hs : start ≤ next) : Spaced whole start spans :=
  ⟨fun span hm => ⟨Nat.le_trans hs (h.bounds span hm).1, (h.bounds span hm).2⟩, h.disjoint⟩

-- Up to the next text only the one in front counts.
theorem blank_iff {whole : List Char} {start next : Nat} {front spans : List (Nat × Nat)}
    (h : Spaced whole next spans) (hs : start ≤ next) (hf : ∀ span ∈ front, span.2 ≤ next) :
    Blank whole start (front ++ spans) ↔
      (∀ i c, start ≤ i → i < next → whole[i]? = some c → (∀ span ∈ front, i < span.1 ∨ span.2 ≤ i) →
        is_whitespace c = true) ∧ Blank whole next spans := by
  constructor
  case mp =>
    intro hb
    constructor
    · intro i c hi hn hc hout
      refine hb i c hi hc fun span hm => ?_
      cases List.mem_append.mp hm with
      | inl hm => exact hout span hm
      | inr hm => exact .inl (Nat.lt_of_lt_of_le hn (h.bounds span hm).1)
    · intro i c hi hc hout
      refine hb i c (Nat.le_trans hs hi) hc fun span hm => ?_
      cases List.mem_append.mp hm with
      | inl hm => exact .inr (Nat.le_trans (hf span hm) hi)
      | inr hm => exact hout span hm
  case mpr =>
    rintro ⟨hfront, hrest⟩ i c hi hc hout
    by_cases hn : i < next
    case pos => exact hfront i c hi hn hc fun span hm => hout span (List.mem_append_left _ hm)
    case neg => exact hrest i c (Nat.not_lt.mp hn) hc fun span hm => hout span (List.mem_append_right _ hm)

theorem token_spans_spanned {kind : TokenKind} (hk : kind.has_span_end = true) (begin_pos end_pos : InputPosition)
    (tokens : List BufferToken) :
    token_spans (spanned kind begin_pos end_pos ++ tokens) =
      (begin_pos.offset, end_pos.offset) :: token_spans tokens := by
  rw [spanned, List.cons_append, List.cons_append, List.nil_append, token_spans, if_pos hk]

theorem token_spans_single {token : BufferToken} (hk : token.kind.has_span_end = false) (tokens : List BufferToken) :
    token_spans (token :: tokens) =
      (token.pos.offset, token.pos.offset + token.kind.token_chars.length) :: token_spans tokens := by
  cases tokens with
  | nil => rfl
  | cons next tokens => rw [token_spans, if_neg (by rw [hk]; decide)]

-- How many characters are taken off at the end of a line comment.
def newline_offset (text : List Char) : Nat := if text.getLast? = some '\r' then 2 else 1

theorem last_of_line_eq {text : List Char} (h : 2 ≤ text.length) :
    last_of_line text = text[text.length - newline_offset text]? := by
  rw [last_of_line, newline_offset]
  split
  case isTrue =>
    rw [List.getLast?_eq_getElem?, List.getElem?_dropLast, List.length_dropLast, if_pos (by omega)]
    congr 1
  case isFalse => rw [List.getLast?_eq_getElem?]

-- What is taken off is whitespace if the last character of the line is.
theorem cut_blank_iff {text : List Char} (rest : List Char) (h : 2 ≤ text.length) :
    (∀ j c, text.length - newline_offset text ≤ j → j < text.length + 1 →
        (text ++ '\n' :: rest)[j]? = some c → is_whitespace c = true) ↔
      ∀ c ∈ last_of_line text, is_whitespace c = true := by
  have hoffset : newline_offset text = 1 ∨ newline_offset text = 2 ∧ text.getLast? = some '\r' := by
    rw [newline_offset]
    by_cases hr : text.getLast? = some '\r'
    · exact .inr ⟨if_pos hr, hr⟩
    · exact .inl (if_neg hr)
  rw [last_of_line_eq h]
  constructor
  case mp =>
    intro hall c hc
    refine hall (text.length - newline_offset text) c (Nat.le_refl _) (by omega) ?_
    rw [List.getElem?_append_left (by omega)]
    exact hc
  case mpr =>
    intro hlast j c hle hlt hc
    by_cases hj : j = text.length - newline_offset text
    case pos =>
      rw [hj, List.getElem?_append_left (by omega)] at hc
      exact hlast c hc
    case neg =>
    by_cases hend : j = text.length
    case pos =>
      rw [hend, List.getElem?_append_right (Nat.le_refl _), Nat.sub_self] at hc
      cases hc
      rfl
    case neg =>
      obtain ho | ⟨ho, hr⟩ := hoffset
      · omega
      · have hj : j = text.length - 1 := by omega
        rw [hj, List.getElem?_append_left (by omega), ← List.getLast?_eq_getElem?, hr] at hc
        cases hc
        rfl

namespace PassTokenizer

variable {whole : List Char} {source source' : InputSource} {lexeme : Lexeme} {n : Nat}

-- The place of a lexeme in the file: its text, and what is around it up to the next one.
structure Covers (whole : List Char) (source : InputSource) (n : Nat) (lexeme : Lexeme) (front : List (Nat × Nat)) :
    Prop where
  spans   : ∀ tokens, token_spans (lexeme.pushed ++ tokens) = front ++ token_spans tokens
  single  : front = [] ∨ ∃ last, front = [(source.pos.offset, last)] ∧ source.pos.offset < last ∧
    last ≤ source.pos.offset + n
  spelled : ∀ token ∈ lexeme.pushed, token.kind.has_span_end = false → token.kind ≠ .spanEnd →
    (whole.drop token.pos.offset).take token.kind.token_chars.length = token.kind.token_chars.toList
  lines   : ∀ token ∈ lexeme.pushed, token.pos.Within whole
  blank   : (∀ i c, source.pos.offset ≤ i → i < source.pos.offset + n → whole[i]? = some c →
    (∀ span ∈ front, i < span.1 ∨ span.2 ≤ i) → is_whitespace c = true) ↔ EndsBlank source

-- A text that is as long as the lexeme leaves nothing out.
theorem blank_of_full {p : Prop} (hp : p) :
    (∀ i c, source.pos.offset ≤ i → i < source.pos.offset + n → whole[i]? = some c →
      (∀ span ∈ [(source.pos.offset, source.pos.offset + n)], i < span.1 ∨ span.2 ≤ i) →
      is_whitespace c = true) ↔ p := by
  refine iff_of_true (fun i c hle hlt _ hout => ?_) hp
  obtain h | h := hout _ List.mem_cons_self
  · exact absurd hle (Nat.not_le.mpr h)
  · exact absurd hlt (Nat.not_lt.mpr h)

theorem offset_of_advances (h : Advances source source' n) : source'.pos.offset = source.pos.offset + n := by
  rw [h.eq, InputSource.offset_consume_times h.le]

theorem Covers.spanned {kind : TokenKind} {opens : Option TokenRangeKind} (hr : source.Reads whole)
    (ha : Advances source source' n) (hk : kind.has_span_end = true) (he : EndsBlank source) :
    Covers whole source n (.tokens (spanned kind source.pos source'.pos) opens)
      [(source.pos.offset, source.pos.offset + n)] where
  spans tokens := by
    rw [Lexeme.pushed, token_spans_spanned hk, offset_of_advances ha]
    rfl
  single := .inr ⟨_, rfl, by have := ha.pos; omega, Nat.le_refl _⟩
  spelled token hm hs hne := by
    obtain rfl | hm := List.mem_cons.mp hm
    · cases hk.symm.trans hs
    · exact absurd (congrArg BufferToken.kind (List.mem_singleton.mp hm)) hne
  lines token hm := by
    obtain rfl | hm := List.mem_cons.mp hm
    · exact hr.pos
    · rw [List.mem_singleton.mp hm, ha.eq]
      exact (hr.consume_times n).pos
  blank := blank_of_full he

-- A token of punctuation is as long as it is written.
theorem Covers.single_token {token : BufferToken} (hr : source.Reads whole) (ha : Advances source source' n)
    (hl : lexeme.pushed = [token]) (hp : token.pos = source.pos) (hk : token.kind.has_span_end = false)
    (ht : source.input.take n = token.kind.token_chars.toList) (he : EndsBlank source) :
    Covers whole source n lexeme [(source.pos.offset, source.pos.offset + n)] := by
  have hlen : token.kind.token_chars.length = n := by
    rw [← String.length_toList, ← ht, List.length_take, Nat.min_eq_left ha.le]
  constructor
  case spans =>
    intro tokens
    rw [hl, List.singleton_append, token_spans_single hk, hp, hlen]
    rfl
  case single => exact .inr ⟨_, rfl, by have := ha.pos; omega, Nat.le_refl _⟩
  case spelled =>
    intro other hm _ _
    rw [hl] at hm
    rw [List.mem_singleton.mp hm, hlen, hp, ← hr.input, ht]
  case lines =>
    intro other hm
    rw [hl] at hm
    rw [List.mem_singleton.mp hm, hp]
    exact hr.pos
  case blank => exact blank_of_full he

theorem Covers.whitespace {contained_newline : Bool} (hr : source.Reads whole)
    (hw : ∀ c ∈ source.input.take n, is_whitespace c = true) (he : EndsBlank source) :
    Covers whole source n (.whitespace contained_newline) [] where
  spans _ := rfl
  single := .inl rfl
  spelled token hm := by cases hm
  lines token hm := by cases hm
  blank := by
    refine iff_of_true (fun i c hle hlt hc _ => hw c ?_) he
    rw [← Nat.add_sub_cancel' hle, ← List.getElem?_drop, ← hr.input] at hc
    refine List.mem_of_getElem? (i := i - source.pos.offset) ?_
    rw [List.getElem?_take_of_lt (by omega)]
    exact hc

-- A position on the same line, some characters earlier.
theorem within_earlier {pos : InputPosition} {k : Nat} (h : pos.Within whole)
    (hn : '\n' ∉ (whole.take pos.offset).drop (pos.offset - k)) :
    ({ pos with offset := pos.offset - k } : InputPosition).Within whole := by
  constructor
  case offset => exact Nat.le_trans (Nat.sub_le _ _) h.offset
  case line =>
    have hsplit := List.take_append_drop (pos.offset - k) (whole.take pos.offset)
    rw [List.take_take, Nat.min_eq_left (Nat.sub_le _ _)] at hsplit
    have hcount := congrArg (List.count '\n') hsplit
    rw [List.count_append, List.count_eq_zero.mpr hn] at hcount
    rw [h.line, ← hcount]
    rfl

theorem Covers.line_comment {text rest : List Char} (hr : source.Reads whole)
    (hs : source.input.take 2 = ['/', '/']) (hi : source.input = text ++ '\n' :: rest) (ht : '\n' ∉ text)
    (hn : n = text.length + 1) :
    Covers whole source n (.tokens (Reowolf.Parser.spanned .lineComment source.pos
        { (source.consume_times text.length).pos with
          offset := (source.consume_times text.length).pos.offset - newline_offset text }) none)
      [(source.pos.offset, source.pos.offset + (text.length - newline_offset text))] := by
  have htwo : 2 ≤ text.length := by
    by_contra hlt
    rw [hi] at hs
    cases text with
    | nil => cases hs
    | cons c text =>
      cases text with
      | nil => cases hs
      | cons d text => exact hlt (Nat.le_add_left _ _)
  have hoffset : 1 ≤ newline_offset text ∧ newline_offset text ≤ 2 := by
    rw [newline_offset]
    split <;> exact ⟨by decide, by decide⟩
  -- The comment begins with two slashes, so that a carriage return is behind them.
  have hlt : newline_offset text < text.length := by
    rw [newline_offset]
    split
    case isFalse => omega
    case isTrue hret =>
      by_contra hge
      have hlen : text.length = 2 := by omega
      obtain ⟨c, d, rfl⟩ := List.length_eq_two.mp hlen
      rw [hi] at hs
      cases hs
      cases hret
  have hle : text.length ≤ source.input.length := by
    rw [hi, List.length_append]
    exact Nat.le_add_right _ _
  have hend := InputSource.offset_consume_times hle
  have hpos := hr.consume_times text.length
  have htake : (whole.take (source.pos.offset + text.length)).drop source.pos.offset = text := by
    rw [List.drop_take, ← hr.input, hi, Nat.add_sub_cancel_left, List.take_left' rfl]
  constructor
  case spans =>
    intro tokens
    rw [Lexeme.pushed, token_spans_spanned rfl, hend, Nat.add_sub_assoc (Nat.le_of_lt hlt)]
    rfl
  case single => exact .inr ⟨_, rfl, by omega, by omega⟩
  case spelled =>
    intro token hm hk hne
    obtain rfl | hm := List.mem_cons.mp hm
    · cases hk
    · exact absurd (congrArg BufferToken.kind (List.mem_singleton.mp hm)) hne
  case lines =>
    intro token hm
    obtain rfl | hm := List.mem_cons.mp hm
    · exact hr.pos
    · rw [List.mem_singleton.mp hm]
      refine within_earlier hpos.pos fun hm => ht ?_
      rw [← htake]
      rw [hend] at hm
      have hdrop : (whole.take (source.pos.offset + text.length)).drop
          (source.pos.offset + text.length - newline_offset text) =
          ((whole.take (source.pos.offset + text.length)).drop source.pos.offset).drop
            (text.length - newline_offset text) := by
        rw [List.drop_drop, Nat.add_sub_assoc (Nat.le_of_lt hlt)]
      rw [hdrop] at hm
      exact List.mem_of_mem_drop hm
  case blank =>
    have hline : source.input.takeWhile (· ≠ '\n') = text := by
      rw [hi, List.takeWhile_append_of_pos (fun c hc => by simpa using fun h : c = '\n' => ht (h ▸ hc))]
      simp
    have hends : EndsBlank source ↔ ∀ c ∈ last_of_line text, is_whitespace c = true := by
      rw [EndsBlank, hline]
      exact ⟨fun h => h hs (hi ▸ List.mem_append_right _ List.mem_cons_self), fun h _ _ => h⟩
    rw [hends, ← cut_blank_iff rest htwo, ← hi]
    constructor
    case mp =>
      intro h j c hj hlt hc
      refine h (source.pos.offset + j) c (Nat.le_add_right _ _) (by omega) ?_ ?_
      · rw [← List.getElem?_drop, ← hr.input]
        exact hc
      · intro span hm
        rw [List.mem_singleton.mp hm]
        exact .inr (by simp only []; omega)
    case mpr =>
      intro h i c hi hlt hc hout
      rw [← Nat.add_sub_cancel' hi, ← List.getElem?_drop, ← hr.input] at hc
      refine h (i - source.pos.offset) c ?_ (by omega) hc
      obtain hout | hout := hout _ List.mem_cons_self
      · exact absurd hi (Nat.not_le.mpr hout)
      · simp only [] at hout
        omega

theorem consume_lexeme_slashes (h : source.input.take 2 = ['/', '/']) :
    source.next = some '/' ∧ consume_lexeme '/' source =
      .ok (.tokens (consume_line_comment source).1 none, (consume_line_comment source).2) := by
  obtain ⟨rest, hi⟩ : ∃ rest, source.input = '/' :: '/' :: rest :=
    ⟨source.input.drop 2, by rw [← List.take_append_drop 2 source.input, h]; rfl⟩
  have hcomment : is_line_comment_start '/' source = true := by
    rw [is_line_comment_start, InputSource.lookahead, hi]
    rfl
  refine ⟨by rw [InputSource.next, hi]; rfl, ?_⟩
  rw [consume_lexeme, if_neg (by decide), if_neg (by decide), if_neg (by decide), if_neg (by decide),
    if_neg (by decide), if_pos hcomment]

theorem consume_lexeme_covers {c : Char} (hr : source.Reads whole) (hc : source.next = some c)
    (h : consume_lexeme c source = .ok (lexeme, source')) :
    ∃ n front, Advances source source' n ∧ Covers whole source n lexeme front := by
  by_cases hs : source.input.take 2 = ['/', '/']
  case pos =>
    obtain ⟨hnext, hlex⟩ := consume_lexeme_slashes hs
    cases hc.symm.trans hnext
    cases hlex.symm.trans h
    have hcomment : LineComment source (consume_line_comment source).2 (consume_line_comment source).1 :=
      consume_line_comment_eq rfl
    generalize (consume_line_comment source).1 = tokens at *
    generalize (consume_line_comment source).2 = source' at *
    cases hcomment with
    | newline text rest hi ht he =>
      refine ⟨text.length + 1, _, ⟨Nat.le_add_left _ _, ?_, he⟩, .line_comment hr hs hi ht rfl⟩
      rw [hi, List.length_append]
      exact Nat.add_le_add_left (Nat.le_add_left _ _) _
    | file ht he =>
      obtain ⟨n, ha⟩ := LineComment.advances (.file ht he) hc
      exact ⟨n, _, ha, .spanned hr ha rfl fun _ hn => absurd hn ht⟩
  case neg =>
    have hblank : EndsBlank source := fun h => absurd h hs
    have hpound : ['#'] = TokenKind.pound.token_chars.toList := by decide
    obtain ⟨n, ha, hscans⟩ := consume_lexeme_scans hc h
    cases hscans with
    | spanned hk            => exact ⟨n, _, ha, .spanned hr ha hk hblank⟩
    | line_comment hslash _ => exact absurd hslash hs
    | pound ht              => exact ⟨n, _, ha, .single_token hr ha rfl rfl rfl (ht.trans hpound) hblank⟩
    | whitespace hw         => exact ⟨n, _, ha, .whitespace hr hw hblank⟩
    | punctuation hk _ ht   => exact ⟨n, _, ha, .single_token hr ha rfl rfl hk ht hblank⟩

-- The lexemes of a source, each with the source in front of it.
inductive Lexes : InputSource → List (InputSource × Lexeme) → Prop
  | done {source : InputSource} : source.next = none → Lexes source []
  | lexeme {source source' : InputSource} {c lexeme lexemes} : source.next = some c →
    consume_lexeme c source = .ok (lexeme, source') → Lexes source' lexemes →
    Lexes source ((source, lexeme) :: lexemes)

def pushed_tokens (lexemes : List (InputSource × Lexeme)) : List BufferToken := lexemes.flatMap (·.2.pushed)

-- The tokens of the lexemes of a source lie one behind the other and say where they are. Whether there is
-- anything but whitespace outside of them is a matter of the line comments.
theorem Lexes.covers {lexemes : List (InputSource × Lexeme)} (h : Lexes source lexemes) (hr : source.Reads whole) :
    Spaced whole source.pos.offset (token_spans (pushed_tokens lexemes)) ∧
      (∀ token ∈ pushed_tokens lexemes, token.kind.has_span_end = false → token.kind ≠ .spanEnd →
        (whole.drop token.pos.offset).take token.kind.token_chars.length = token.kind.token_chars.toList) ∧
      (∀ token ∈ pushed_tokens lexemes, token.pos.Within whole) ∧
      (Blank whole source.pos.offset (token_spans (pushed_tokens lexemes)) ↔
        ∀ lexeme ∈ lexemes, EndsBlank lexeme.1) := by
  induction h with
  | @done source hn =>
    refine ⟨⟨fun _ hm => (by cases hm), .nil⟩, fun _ hm => (by cases hm), fun _ hm => (by cases hm), ?_⟩
    refine iff_of_true (fun i c hle hc _ => ?_) fun _ hm => (by cases hm)
    have hlen : whole.length ≤ source.pos.offset :=
      List.drop_eq_nil_iff.mp (hr.input.symm.trans (List.head?_eq_none_iff.mp hn))
    exact absurd (List.getElem?_eq_some_iff.mp hc).1 (Nat.not_lt.mpr (Nat.le_trans hlen hle))
  | @lexeme source source' c lexeme lexemes hc hl _ ih =>
    obtain ⟨n, front, ha, hcovers⟩ := consume_lexeme_covers hr hc hl
    have hr' : source'.Reads whole := ha.eq ▸ hr.consume_times n
    have hoffset := offset_of_advances ha
    obtain ⟨hspaced, hspelled, hlines, hblank⟩ := ih hr'
    have hsplit : pushed_tokens ((source, lexeme) :: lexemes) = lexeme.pushed ++ pushed_tokens lexemes := rfl
    have hend : source.pos.offset + n ≤ whole.length := hoffset ▸ hr'.pos.offset
    rw [hsplit, hcovers.spans]
    refine ⟨?_, fun token hm => ?_, fun token hm => ?_, ?_⟩
    · obtain rfl | ⟨last, rfl, hlt, hle⟩ := hcovers.single
      · exact hspaced.mono (by omega)
      · exact hspaced.cons (Nat.le_refl _) hlt (by omega) (by omega) (by omega)
    · obtain hm | hm := List.mem_append.mp hm
      · exact hcovers.spelled token hm
      · exact hspelled token hm
    · obtain hm | hm := List.mem_append.mp hm
      · exact hcovers.lines token hm
      · exact hlines token hm
    · have hfront : ∀ span ∈ front, span.2 ≤ source'.pos.offset := by
        intro span hm
        obtain rfl | ⟨last, rfl, _, hle⟩ := hcovers.single
        · cases hm
        · rw [List.mem_singleton.mp hm]
          simp only []
          omega
      rw [blank_iff hspaced (by omega) hfront, hblank, List.forall_mem_cons, hoffset, hcovers.blank]

section

variable {initial pass pass' : PassTokenizer} {target target' buffer : TokenBuffer} {fuel : Nat}
variable {lexemes : List (InputSource × Lexeme)}

-- The rounds of the main loop go from lexeme to lexeme.
theorem Reaches.lexes (h : Reaches initial whole pass target source)
    (he : tokenize_rounds fuel pass target source = .ok (pass', target', source')) :
    ∃ lexemes, Lexes source lexemes ∧ target'.tokens = target.tokens ++ pushed_tokens lexemes ∧
      ∀ lexeme ∈ lexemes, ∃ pass target, Reaches initial whole pass target lexeme.1 := by
  induction fuel generalizing pass target source with
  | zero => cases he
  | succ fuel ih =>
    cases hc : source.next with
    | none =>
      rw [tokenize_rounds, hc] at he
      cases he
      exact ⟨[], .done hc, (List.append_nil _).symm, fun _ hm => (by cases hm)⟩
    | some c =>
      rw [tokenize_rounds_succ hc] at he
      obtain ⟨⟨lexeme, source₁⟩, hl, he⟩ := Except.bind_eq_ok.mp he
      obtain ⟨⟨pass₁, target₁⟩, hv, he⟩ := Except.bind_eq_ok.mp he
      obtain ⟨lexemes, hlexes, htokens, hreached⟩ := ih (h.round hc hl hv) he
      refine ⟨(source, lexeme) :: lexemes, .lexeme hc hl hlexes, ?_, ?_⟩
      · rw [htokens, visit_lexeme_tokens hv, List.append_assoc]
        rfl
      · exact List.forall_mem_cons.mpr ⟨⟨pass, target, h⟩, hreached⟩

-- There is no other state that the main loop comes to than in front of these lexemes and behind them.
theorem Reaches.suffix (h : Reaches initial whole pass target source) (hl : Lexes (.new whole) lexemes) :
    ∃ rest, Lexes source rest ∧ rest <:+ lexemes := by
  induction h with
  | start => exact ⟨lexemes, hl, List.suffix_rfl⟩
  | round _ hc hlex _ ih =>
    obtain ⟨rest, hrest, hsuffix⟩ := ih
    cases hrest with
    | done hn => cases hn.symm.trans hc
    | lexeme hc' hlex' hnext =>
      cases hc.symm.trans hc'
      cases hlex.symm.trans hlex'
      exact ⟨_, hnext, (List.suffix_cons _ _).trans hsuffix⟩

theorem Lexes.endsBlank (h : Lexes (.new whole) lexemes) (hall : ∀ lexeme ∈ lexemes, EndsBlank lexeme.1) :
    ∀ pass target source, Reaches initial whole pass target source → EndsBlank source := by
  intro pass target source hs
  obtain ⟨rest, hrest, hsuffix⟩ := hs.suffix h
  cases hrest with
  | done hn =>
    intro htwo _
    rw [List.head?_eq_none_iff.mp hn] at htwo
    cases htwo
  | lexeme => exact hall _ (hsuffix.subset List.mem_cons_self)

end

-- Nothing is lost in the tokens of a file if its line comments end in blanks.
theorem lossless_iff (whole : List Char) (buffer : TokenBuffer) (h : tokenize whole = .ok buffer) :
    Lossless whole buffer.tokens ↔
      ∀ pass target source, Reaches ⟨[], 0⟩ whole pass target source → EndsBlank source := by
  obtain ⟨⟨pass, target, source⟩, hrounds, hfinish⟩ := Except.bind_eq_ok.mp h
  obtain ⟨lexemes, hlexes, htokens, hreached⟩ := Reaches.start.lexes hrounds
  obtain ⟨hspaced, hspelled, hlines, hblank⟩ := hlexes.covers (.new whole)
  rw [finish_tokens hfinish, htokens, List.nil_append]
  have hcomments : (∀ lexeme ∈ lexemes, EndsBlank lexeme.1) ↔
      ∀ pass target source, Reaches ⟨[], 0⟩ whole pass target source → EndsBlank source := by
    refine ⟨hlexes.endsBlank, fun hall lexeme hm => ?_⟩
    obtain ⟨pass, target, hs⟩ := hreached lexeme hm
    exact hall pass target lexeme.1 hs
  rw [← hcomments, ← hblank]
  exact ⟨Lossless.blank, fun hb => ⟨hspaced.increasing, hspaced.disjoint, hspelled, hb, hlines⟩⟩

-- The file `// ` with a newline at its end.
theorem lossless_blank_comment :
    ∃ buffer, tokenize ['/', '/', ' ', '\n'] = .ok buffer ∧ Lossless ['/', '/', ' ', '\n'] buffer.tokens := by
  obtain ⟨buffer, h⟩ : ∃ buffer, tokenize ['/', '/', ' ', '\n'] = .ok buffer := ⟨_, rfl⟩
  have hlexes : Lexes (.new ['/', '/', ' ', '\n']) [(.new ['/', '/', ' ', '\n'], _)] := .lexeme rfl rfl (.done rfl)
  refine ⟨buffer, h, (lossless_iff _ buffer h).mpr (hlexes.endsBlank fun lexeme hm => ?_)⟩
  rw [List.mem_singleton.mp hm]
  intro _ _ c hc
  cases hc
  rfl

-- Of the comment `//a` the last character is outside of the token.
theorem comment_not_lossless :
    ∃ buffer, tokenize ['/', '/', 'a', '\n'] = .ok buffer ∧
      buffer.tokens = [⟨.lineComment, ⟨1, 0⟩⟩, ⟨.spanEnd, ⟨1, 2⟩⟩] ∧ ¬Lossless ['/', '/', 'a', '\n'] buffer.tokens := by
  refine ⟨_, rfl, rfl, fun h => ?_⟩
  have hblank := h.blank 2 'a' (Nat.zero_le _) rfl fun span hm => ?_
  · exact absurd hblank (by decide)
  · rw [List.mem_singleton.mp hm]
    exact .inr (Nat.le_refl _)

end PassTokenizer

end Reowolf.Parser
