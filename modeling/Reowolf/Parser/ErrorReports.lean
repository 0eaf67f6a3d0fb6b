import Reowolf.Parser.LineTable

namespace Reowolf.Parser

open LossyDecoding ErrorStatement InputSource

-- A position that consuming a source leads to.
def Consumed (whole : List Char) (pos : InputPosition) : Prop :=
  ∃ n, ((InputSource.new whole).consume_times n).pos = pos

-- The place of an error.
inductive ErrorPlace
  | position (pos : InputPosition)
  | span («begin» «end» : InputPosition)

namespace ErrorPlace

def first : ErrorPlace → InputPosition
  | position pos => pos
  | span pos _   => pos

def last : ErrorPlace → InputPosition
  | position pos => pos
  | span _ pos   => pos

-- A span is not empty.
def Occurs (whole : List Char) : ErrorPlace → Prop
  | position pos       => Consumed whole pos
  | span «begin» «end» => Consumed whole «begin» ∧ Consumed whole «end» ∧ begin.offset < end.offset

def statement (statement_kind : StatementKind) (filename : String) (input : List Char) (message : String) :
    ErrorPlace → Except ReportPanic ErrorStatement
  | position pos       => from_source_at_pos statement_kind filename input pos message
  | span «begin» «end» => from_source_at_span statement_kind filename input «begin» «end» message

end ErrorPlace

-- The number of a position in its line.
def column (whole : List Char) (pos : InputPosition) : Nat :=
  ((whole.take pos.offset).reverse.takeWhile (· ≠ '\n')).length + 1

-- The line of a position, with its line end.
def line_of (whole : List Char) (pos : InputPosition) : List Char :=
  ((text_lines whole)[pos.line - 1]?).getD []

-- The number of places that characters take when they are written.
def width (chars : List Char) : Nat := (transform_context chars).length

-- Where the characters from one position of a line up to another one are written. A line starts behind
-- four other characters, and its line end stands behind it.
def first_place (whole : List Char) (pos : InputPosition) : Nat :=
  4 + width ((from_utf8_lossy (line_of whole pos)).take (ended (glyphs (line_of whole pos)) (column whole pos - 1)))

def end_place (whole : List Char) (pos : InputPosition) : Nat :=
  4 + width ((from_utf8_lossy (line_of whole pos)).take (begun (glyphs (line_of whole pos)) (column whole pos - 1)))

-- The text of a statement ends in the line of the span, and in a line with marks under the span.
def Underlined (whole : List Char) («begin» «end» : InputPosition) (context text : List Char) : Prop :=
  ∃ front annotation,
    text = front ++ (" |  ".toList ++ transform_context context ++ ['\n']) ++ ( annotation ++ ['\n']) ∧
    '\n' ∉ annotation ∧
    ∀ i : Nat, annotation[i]? = some '~' ↔ first_place whole «begin» ≤ i ∧ i < end_place whole «end»

namespace ErrorPlace

-- What the statement says of the place: its lines and columns, and the text of its lines.
structure Located (whole : List Char) (place : ErrorPlace) (statement : ErrorStatement) : Prop where
  start_line   : statement.start_line = place.first.line
  start_column : statement.start_column = column whole place.first
  end_line     : statement.end_line = place.last.line
  end_column   : place.first ≠ place.last → statement.end_column = column whole place.last
  context      : (text_lines statement.context).map strip_line_end =
    (((text_lines whole).drop (place.first.line - 1)).take (place.last.line - place.first.line + 1)).map
      fun line => from_utf8_lossy (strip_line_end line)

-- The error can be written, it points at its place, and a span of a single line is underlined.
def Reports (statement_kind : StatementKind) (filename : String) (whole : List Char) (message : String)
    (place : ErrorPlace) : Prop :=
  ∃ statement text, place.statement statement_kind filename whole message = .ok statement ∧
    statement.fmt = .ok text ∧ place.Located whole statement ∧
    ∀ «begin» «end», place = .span «begin» «end» → begin.line = end.line →
      Underlined whole «begin» «end» statement.context text

-- A span of characters that are bytes does not start with a tab. The characters behind it do not matter.
def Plain (line : List Char) (start «end» : Nat) : Prop :=
  «end» ≤ line.length ∧ ended (glyphs line) start = start ∧ (from_utf8_lossy line)[start]? ≠ some '\t' ∧
  (begun (glyphs line) «end» = «end» ∨ begun (glyphs line) «end» = (glyphs line).length)

-- When an error is reported as it should be: a position is not that of the newline of a line that ends
-- with a carriage return and a newline, unless the line gets longer by its decoding; a span of several
-- lines does not end at the start of a line; a span of one line is plain, or that line is empty.
def Clean (whole : List Char) : ErrorPlace → Prop
  | position pos =>
    let line := strip_line_end (line_of whole pos)
    column whole pos ≤ line.length + 1 ∨ line.length < byte_length (from_utf8_lossy line)
  | span «begin» «end» =>
    if begin.line = end.line then
      let line := strip_line_end (line_of whole «begin»)
      line = [] ∨ Plain line (column whole «begin» - 1) (column whole «end» - 1)
    else column whole «end» ≠ 1

end ErrorPlace

variable {whole before text ending after : List Char} {pos : InputPosition}

theorem Consumed.within (h : Consumed whole pos) : pos.Within whole := by
  obtain ⟨n, rfl⟩ := h
  exact ((Reads.new whole).consume_times n).pos

namespace LineOf

theorem line_of_eq (h : LineOf whole pos before text ending after) :
    line_of whole pos = text ++ ending := by
  rw [line_of, h.text_lines_get, Option.getD_some]

theorem strip_eq (h : LineOf whole pos before text ending after) :
    strip_line_end (line_of whole pos) = text := by
  rw [h.line_of_eq, strip_line_end_eq h.line_end h.no_newline]

theorem column_eq (h : LineOf whole pos before text ending after) :
    column whole pos = pos.offset - before.length + 1 := by
  obtain ⟨htake, hn⟩ := h.take_offset
  have hle := h.le_end
  have hfront : ∀ c ∈ ((text ++ ending).take (pos.offset - before.length)).reverse, decide (c ≠ '\n') = true := by
    intro c hc
    exact decide_eq_true fun he => hn (he ▸ List.mem_reverse.mp hc)
  have hrest : before.reverse.takeWhile (fun c => decide (c ≠ '\n')) = [] := by
    rcases h.closed.eq_nil_or_concat with he | ⟨front, he⟩
    · rw [he]
      rfl
    · rw [he, List.reverse_append]
      rfl
  rw [column, htake, List.reverse_append, List.takeWhile_append_of_pos hfront, hrest, List.append_nil,
    List.length_reverse, List.length_take, List.length_append]
  omega

-- Of a line end only a carriage return is in front of a position of its line.
theorem column_le (h : LineOf whole pos before text ending after) :
    column whole pos - 1 ≤ text.length + 1 := by
  have hle := h.le_end
  rw [h.column_eq]
  cases h.line_end with
  | file     => rw [List.length_nil] at hle; omega
  | newline  => rw [List.length_singleton] at hle; omega
  | carriage => rw [List.length_cons, List.length_singleton] at hle; omega

end LineOf

theorem width_append (xs ys : List Char) : width (xs ++ ys) = width xs + width ys := by
  rw [width, transform_context, List.flatMap_append, List.length_append]
  rfl

theorem width_singleton (c : Char) : width [c] = if c = '\t' then 4 else 1 := by
  rw [width, transform_context, List.flatMap_singleton]
  split <;> rfl

theorem le_width (chars : List Char) : chars.length ≤ width chars := by
  induction chars with
  | nil => exact Nat.le_refl 0
  | cons c chars ih =>
    have he := width_append [c] chars
    rw [List.singleton_append, width_singleton] at he
    rw [he, List.length_cons]
    split <;> omega

theorem annotation_eq (chars : List Char) (extend_char : Char) :
    (chars.flatMap fun c => List.replicate (if c = '\t' then 4 else 1) extend_char) =
      List.replicate (width chars) extend_char := by
  induction chars with
  | nil => rfl
  | cons c chars ih =>
    have he := width_append [c] chars
    rw [List.singleton_append] at he
    rw [List.flatMap_cons, ih, he, width_singleton, List.replicate_append_replicate]

theorem extend_annotation_eq {s e : Nat} (hlt : s < e) (chars : List Char) (extend_char : Char) :
    extend_annotation (s + 1) (e + 1) chars extend_char =
      if byte_length chars ≤ s then
        if s = byte_length chars ∧ s + 1 = e then .ok [extend_char] else .error .assertion
      else .ok (List.replicate (width ((chars.take e).drop s)) extend_char) := by
  have hassert : s + 1 > 0 ∧ e + 1 > s + 1 := ⟨Nat.succ_pos s, Nat.succ_lt_succ hlt⟩
  rw [ extend_annotation, debug_assert, if_pos hassert, Except.ok_bind]
  simp only [Nat.add_sub_cancel, annotation_eq, ge_iff_le]
  split
  case isFalse => rfl
  case isTrue =>
    by_cases h₁ : s = byte_length chars
    case neg => rw [debug_assert, if_neg h₁, if_neg fun h => h₁ h.1]; rfl
    case pos =>
      by_cases h₂ : s + 1 = e
      case neg => rw [debug_assert, if_pos h₁, debug_assert, if_neg h₂, if_neg fun h => h₂ h.2]; rfl
      case pos => rw [debug_assert, if_pos h₁, debug_assert, if_pos h₂, if_pos ⟨h₁, h₂⟩]; rfl

namespace LineOf

theorem context_eq (mid : List Char) (hw : whole = before ++ (mid ++ (text ++ (ending ++ after)))) :
    create_context whole before.length (before.length + mid.length + text.length) =
      .ok (from_utf8_lossy (mid ++ text)) := by
  have hle : before.length + mid.length + text.length ≤ whole.length := by
    simp only [hw, List.length_append]
    omega
  rw [create_context, if_pos ⟨by omega, hle⟩, hw, List.drop_left, ← List.append_assoc mid,
    List.take_left' (by rw [List.length_append]; omega)]

-- The statement for a position.
theorem from_pos (h : LineOf whole pos before text ending after) (statement_kind : StatementKind)
    (filename message : String) :
    from_source_at_pos statement_kind filename whole pos message = .ok
      { statement_kind := statement_kind
        context_kind   := .SingleLine
        start_line     := pos.line
        start_column   := column whole pos
        end_line       := pos.line
        end_column     := column whole pos + 1
        filename       := filename
        context        := from_utf8_lossy text
        message        := message } := by
  have hcontext := context_eq [] h.whole_eq
  rw [List.length_nil, Nat.add_zero, List.nil_append] at hcontext
  have hsub : checked_sub pos.offset before.length = .ok (pos.offset - before.length) := if_pos h.start_le
  have hassert : debug_assert (pos.offset ≥ before.length) = .ok () := if_pos h.start_le
  rw [from_source_at_pos, h.start_offset, Except.ok_bind, h.end_offset, Except.ok_bind, hcontext,
    Except.ok_bind, hassert, Except.ok_bind, hsub, h.column_eq]
  rfl

variable {pos' : InputPosition} {before' text' ending' after' mid : List Char}

-- The statement for a span.
theorem from_span (h : LineOf whole pos before text ending after)
    (h' : LineOf whole pos' before' text' ending' after') (hm : before' = before ++ mid)
    (hline : pos'.line = pos.line + mid.count '\n') (hlt : pos.offset < pos'.offset)
    (statement_kind : StatementKind) (filename message : String) :
    from_source_at_span statement_kind filename whole pos pos' message = .ok
      { statement_kind := statement_kind
        context_kind   := if pos.line = pos'.line then .SingleLine else .MultiLine
        start_line     := pos.line
        start_column   := column whole pos
        end_line       := pos'.line
        end_column     := column whole pos'
        filename       := filename
        context        := from_utf8_lossy (mid ++ text')
        message        := message } := by
  have hw := h'.whole_eq
  rw [hm, List.append_assoc] at hw
  have hcontext := context_eq mid hw
  rw [← List.length_append, ← hm] at hcontext
  have hsub : checked_sub pos.offset before.length = .ok (pos.offset - before.length) := if_pos h.start_le
  have hsub' : checked_sub pos'.offset before'.length = .ok (pos'.offset - before'.length) := if_pos h'.start_le
  have hassert : debug_assert (pos.offset ≥ before.length) = .ok () := if_pos h.start_le
  have hlines : debug_assert (pos'.line ≥ pos.line) = .ok () := if_pos (hline ▸ Nat.le_add_right _ _)
  have hoffsets : debug_assert (pos'.offset ≥ pos.offset) = .ok () := if_pos (Nat.le_of_lt hlt)
  rw [from_source_at_span, hlines, Except.ok_bind, hoffsets, Except.ok_bind, h.start_offset, Except.ok_bind,
    h'.start_offset, Except.ok_bind, h'.end_offset, Except.ok_bind, hcontext, Except.ok_bind, hassert,
    Except.ok_bind, hsub, h.column_eq, hsub', h'.column_eq]
  rfl

end LineOf

-- The decoding of a line end, and of lines in front of others.
theorem newline_not_mem_decoded (h : '\n' ∉ text) : '\n' ∉ from_utf8_lossy text :=
  fun hm => h (mem_of_decoded (by decide) hm)

theorem decoded_newline (text rest : List Char) :
    from_utf8_lossy (text ++ '\n' :: rest) = from_utf8_lossy text ++ '\n' :: from_utf8_lossy rest := by
  rw [from_utf8_lossy_append (by decide), from_utf8_lossy_ascii (by decide)]

theorem decoded_closed (h : Closed before) (text : List Char) :
    from_utf8_lossy (before ++ text) = from_utf8_lossy before ++ from_utf8_lossy text ∧
    Closed (from_utf8_lossy before) := by
  induction h with
  | nil => exact ⟨rfl, .nil⟩
  | @cons line rest hl _ ih =>
    obtain ⟨he, hc⟩ := ih
    rw [List.append_assoc, List.cons_append, decoded_newline, decoded_newline, he]
    exact ⟨by rw [List.append_assoc, List.cons_append], .cons (newline_not_mem_decoded hl) hc⟩

theorem strip_newline (hl : '\n' ∉ text) : strip_line_end (from_utf8_lossy (text ++ ['\n'])) =
    from_utf8_lossy (strip_line_end (text ++ ['\n'])) := by
  have hdecoded : from_utf8_lossy (text ++ ['\n']) = from_utf8_lossy text ++ ['\n'] := decoded_newline text []
  by_cases hr : text.getLast? = some '\r'
  case pos =>
    obtain ⟨front, rfl⟩ := List.getLast?_eq_some_iff.mp hr
    have hfront : from_utf8_lossy (front ++ ['\r']) = from_utf8_lossy front ++ ['\r'] := by
      rw [from_utf8_lossy_append (by decide), from_utf8_lossy_ascii (by decide)]
      rfl
    rw [hdecoded, hfront, strip_line_end, strip_line_end]
    simp only [List.getLast?_concat, List.dropLast_concat, if_true]
  case neg =>
    have hn : (from_utf8_lossy text).getLast? ≠ some '\r' := fun he => hr (getLast?_of_decoded (by decide) he)
    rw [hdecoded, strip_line_end, strip_line_end]
    simp only [List.getLast?_concat, List.dropLast_concat, if_true, if_neg hr, if_neg hn]

-- The lines of a decoded text are the decoded lines.
theorem split_inclusive_decoded (h : Closed before) :
    (split_inclusive (from_utf8_lossy before)).map strip_line_end =
      (split_inclusive before).map fun line => from_utf8_lossy (strip_line_end line) := by
  induction h with
  | nil => rfl
  | @cons line rest hl _ ih =>
    have hs := strip_newline hl
    rw [decoded_newline line []] at hs
    rw [decoded_newline, split_inclusive_newline (newline_not_mem_decoded hl), split_inclusive_newline hl,
      List.map_cons, List.map_cons, ih]
    exact congrArg (· :: _) hs

namespace LineOf

variable {pos' : InputPosition} {before' text' ending' after' mid : List Char}

-- The lines of a context are the lines that it covers.
theorem context_lines (h : LineOf whole pos before text ending after)
    (h' : LineOf whole pos' before' text' ending' after') (hm : before' = before ++ mid) (hc : Closed mid)
    (hline : pos'.line = pos.line + mid.count '\n') :
    (text_lines (from_utf8_lossy (mid ++ text'))).map strip_line_end =
      (((text_lines whole).drop (pos.line - 1)).take (pos'.line - pos.line + 1)).map
        fun line => from_utf8_lossy (strip_line_end line) := by
  obtain ⟨lines, hl⟩ := h'.line_end.text_lines h'.no_newline
  obtain ⟨hdecoded, hcd⟩ := decoded_closed hc text'
  have hn := newline_not_mem_decoded h'.no_newline
  have hcovered : ((text_lines whole).drop (pos.line - 1)).take (pos'.line - pos.line + 1) =
      split_inclusive mid ++ [text' ++ ending'] := by
    have hstart : pos.line - 1 = (split_inclusive before).length := by
      rw [h.line, Nat.add_sub_cancel_left, length_split_inclusive h.closed]
    have hnum : pos'.line - pos.line = (split_inclusive mid).length := by
      rw [hline, Nat.add_sub_cancel_left, length_split_inclusive hc]
    rw [h'.whole_eq, hm, List.append_assoc, text_lines_append h.closed, text_lines_append hc, hl, hstart, hnum,
      List.drop_left, List.take_length_add_append]
    rfl
  have hlast : strip_line_end (from_utf8_lossy text') = from_utf8_lossy text' := by
    have he := strip_line_end_eq (.file (from_utf8_lossy text')) hn
    rw [List.append_nil] at he
    exact he
  rw [hcovered, hdecoded, text_lines_append hcd, text_lines_last hn, List.map_append, List.map_append,
    split_inclusive_decoded hc, List.map_singleton, List.map_singleton, hlast,
    strip_line_end_eq h'.line_end h'.no_newline]

end LineOf

section SingleLine

variable {statement : ErrorStatement} {s e : Nat}

-- What precedes the marks takes as many places as the line up to the first marked character.
def indent_width (context : List Char) (s : Nat) : Nat := if context = [] then 1 else width (context.take (s + 1))

def marks_width (context : List Char) (s e : Nat) : Nat :=
  if s < byte_length context then width ((context.take e).drop s) else 1

theorem indent_eq (context : List Char) (s : Nat) :
    extend_annotation 1 (s + 2) context ' ' =
      if context = [] ∧ s ≠ 0 then .error .assertion else .ok (List.replicate (indent_width context s) ' ') := by
  rw [extend_annotation_eq (Nat.succ_pos s), indent_width]
  by_cases hc : context = []
  case pos =>
    rw [if_pos (Nat.le_of_eq (byte_length_eq_zero.mpr hc)), if_pos hc, byte_length_eq_zero.mpr hc]
    by_cases hs : s = 0
    case pos => rw [if_pos ⟨rfl, by omega⟩, if_neg fun h => h.2 hs]; rfl
    case neg => rw [if_neg fun h => hs (by omega), if_pos ⟨hc, hs⟩]
  case neg =>
    have hpos : ¬ byte_length context ≤ 0 := fun h => hc (byte_length_eq_zero.mp (Nat.le_zero.mp h))
    rw [if_neg hpos, if_neg hc, if_neg fun h => hc h.1, List.drop_zero]

theorem marks_eq (hlt : s < e) (context : List Char) :
    extend_annotation (s + 1) (e + 1) context '~' =
      if s < byte_length context ∨ s = byte_length context ∧ s + 1 = e then
        .ok (List.replicate (marks_width context s e) '~')
      else .error .assertion := by
  rw [extend_annotation_eq hlt, marks_width]
  by_cases hs : s < byte_length context
  case pos => rw [if_neg (Nat.not_le.mpr hs), if_pos (.inl hs), if_pos hs]
  case neg =>
    rw [if_pos (Nat.not_lt.mp hs), if_neg hs]
    by_cases he : s = byte_length context ∧ s + 1 = e
    case pos => rw [if_pos he, if_pos (.inr he)]; rfl
    case neg => rw [if_neg he, if_neg fun h => h.elim hs he]

-- When a statement of a single line can be written.
def Writable (context : List Char) (s e : Nat) : Prop :=
  (context = [] → s = 0) ∧ (s < byte_length context ∨ s = byte_length context ∧ s + 1 = e)

def single_text (statement : ErrorStatement) (s e : Nat) : List Char :=
  statement.header ++ (" |  ".toList ++ transform_context statement.context ++ ['\n']) ++
    (" | ".toList ++ List.replicate (indent_width statement.context s) ' ' ++
      List.replicate (marks_width statement.context s e) '~' ++ ['\n'])

theorem fmt_single (hk : statement.context_kind = .SingleLine) (hs : statement.start_column = s + 1)
    (he : statement.end_column = e + 1) (hlt : s < e) :
    (Writable statement.context s e → statement.fmt = .ok (single_text statement s e)) ∧
    (¬ Writable statement.context s e → ∀ text, statement.fmt ≠ .ok text) := by
  have hfmt : statement.fmt = ( extend_annotation 1 (s + 2) statement.context ' ').bind fun indent =>
      ( extend_annotation (s + 1) (e + 1) statement.context '~').bind fun marks =>
        .ok (statement.header ++ (" |  ".toList ++ transform_context statement.context ++ ['\n']) ++
          (" | ".toList ++ indent ++ marks ++ ['\n'])) := by
    rw [fmt, hk, hs, he]
    rfl
  rw [hfmt, indent_eq, marks_eq hlt]
  constructor
  · rintro ⟨hc, hb⟩
    rw [if_neg fun h => h.2 (hc h.1), if_pos hb]
    rfl
  · intro hw text
    by_cases hc : statement.context = [] ∧ s ≠ 0
    case pos =>
      rw [if_pos hc]
      exact fun h => by cases h
    case neg =>
      rw [if_neg hc, if_neg fun hb => hw ⟨fun h => by_contra fun hs => hc ⟨h, hs⟩, hb⟩]
      exact fun h => by cases h

end SingleLine

theorem width_take_add (chars : List Char) {m n : Nat} (h : m ≤ n) :
    width (chars.take n) = width (chars.take m) + width ((chars.take n).drop m) := by
  have he := List.take_append_drop m (chars.take n)
  rw [List.take_take, Nat.min_eq_left h] at he
  rw [← width_append, he]

theorem width_take_lt {chars : List Char} {m n : Nat} (h : m < n) (hn : n ≤ chars.length) :
    width (chars.take m) < width (chars.take n) := by
  have hle := le_width ((chars.take n).drop m)
  rw [List.length_drop, List.length_take, Nat.min_eq_left hn] at hle
  rw [width_take_add chars (Nat.le_of_lt h)]
  omega

theorem width_take_succ {chars : List Char} {n : Nat} {c : Char} (h : chars[n]? = some c) :
    width (chars.take (n + 1)) = width (chars.take n) + if c = '\t' then 4 else 1 := by
  rw [List.take_add_one, h, width_append, Option.toList_some, width_singleton]

-- The last line of a text is determined by it.
theorem last_line_unique {f g as bs : List Char} (ha : '\n' ∉ as) (hb : '\n' ∉ bs)
    (h : f ++ ['\n'] ++ (as ++ ['\n']) = g ++ ['\n'] ++ (bs ++ ['\n'])) : as = bs := by
  rw [← List.append_assoc, ← List.append_assoc] at h
  have h₁ := (List.append_inj' h rfl).1
  have hreverse := congrArg (fun l => (l.reverse.takeWhile fun c => decide (c ≠ '\n')).reverse) h₁
  have hrest (front line : List Char) (hl : '\n' ∉ line) :
      ((front ++ ['\n'] ++ line).reverse.takeWhile fun c => decide (c ≠ '\n')).reverse = line := by
    have hfront : (front ++ ['\n']).reverse.takeWhile (fun c => decide (c ≠ '\n')) = [] := by
      rw [List.reverse_append]
      rfl
    have hline : ∀ c ∈ line.reverse, decide (c ≠ '\n') = true :=
      fun c hc => decide_eq_true fun he => hl (he ▸ List.mem_reverse.mp hc)
    rw [List.reverse_append, List.takeWhile_append_of_pos hline, hfront, List.append_nil, List.reverse_reverse]
  simp only [hrest _ _ ha, hrest _ _ hb] at hreverse
  exact hreverse

theorem getElem?_marks (p q i : Nat) :
    (" | ".toList ++ List.replicate p ' ' ++ List.replicate q '~')[i]? = some '~' ↔ 3 + p ≤ i ∧ i < 3 + p + q := by
  have hlen : (" | ".toList ++ List.replicate p ' ').length = 3 + p := by
    rw [List.length_append, List.length_replicate]
    rfl
  by_cases hi : i < 3 + p
  case pos =>
    rw [List.getElem?_append_left (hlen.symm ▸ hi)]
    refine ⟨fun h => ?_, fun h => absurd h.1 (Nat.not_le.mpr hi)⟩
    cases List.mem_append.mp (List.mem_of_getElem? h) with
    | inl hm => exact absurd hm (by decide)
    | inr hm => cases List.eq_of_mem_replicate hm
  case neg =>
    rw [List.getElem?_append_right (hlen.symm ▸ Nat.not_lt.mp hi), hlen, List.getElem?_replicate]
    split
    case isTrue h  => exact ⟨fun _ => ⟨Nat.not_lt.mp hi, by omega⟩, fun _ => rfl⟩
    case isFalse h => exact ⟨fun h => (by cases h), fun h => (by omega)⟩

-- The marks are where they should be if they begin and end there.
theorem underlined_iff {first «end» : InputPosition} {statement : ErrorStatement} {s e : Nat}
    (hlt : first_place whole first < end_place whole «end») :
    Underlined whole first «end» statement.context (single_text statement s e) ↔
      3 + indent_width statement.context s = first_place whole first ∧
      3 + indent_width statement.context s + marks_width statement.context s e = end_place whole «end» := by
  have hmarks := getElem?_marks (indent_width statement.context s) (marks_width statement.context s e)
  have hn : '\n' ∉ " | ".toList ++ List.replicate (indent_width statement.context s) ' ' ++
      List.replicate (marks_width statement.context s e) '~' := by
    refine List.not_mem_append (List.not_mem_append (by decide) ?_) ?_
    all_goals
      intro hm
      cases List.eq_of_mem_replicate hm
  constructor
  · rintro ⟨front, annotation, htext, ha, hplaces⟩
    have he := last_line_unique (f := statement.header ++ (" |  ".toList ++ transform_context statement.context))
      (g := front ++ (" |  ".toList ++ transform_context statement.context)) hn ha
      (by simpa only [single_text, List.append_assoc] using htext)
    rw [← he] at hplaces
    have hiff (i : Nat) := (hmarks i).symm.trans (hplaces i)
    have h₁ := (hiff (first_place whole first)).mpr ⟨Nat.le_refl _, hlt⟩
    have h₂ := (hiff (end_place whole «end» - 1)).mpr (by omega)
    have h₃ := (hiff (3 + indent_width statement.context s)).mp (by omega)
    have h₄ := (hiff (3 + indent_width statement.context s + marks_width statement.context s e - 1)).mp (by omega)
    omega
  · rintro ⟨hf, he⟩
    refine ⟨statement.header, _, rfl, hn, fun i => ?_⟩
    rw [hmarks, hf, ← he, hf]

-- A line end is no part of a character.
theorem LineEnd.glyphs_append (h : LineEnd text ending after) :
    glyphs (text ++ ending) = glyphs text ++ glyphs ending ∧
    from_utf8_lossy (text ++ ending) = from_utf8_lossy text ++ from_utf8_lossy ending ∧
    ended (glyphs ending) 0 = 0 := by
  cases h with
  | file =>
    rw [List.append_nil]
    exact ⟨(List.append_nil _).symm, (List.append_nil _).symm, rfl⟩
  | newline  => exact ⟨glyphs_append (by decide) text [], from_utf8_lossy_append (by decide) text [], rfl⟩
  | carriage => exact ⟨glyphs_append (by decide) text ['\n'], from_utf8_lossy_append (by decide) text ['\n'], rfl⟩

namespace LineOf

theorem length_decoded (text : List Char) :
    (from_utf8_lossy text).length = (glyphs text).length := List.length_map _

theorem first_place_eq (h : LineOf whole pos before text ending after)
    (hle : column whole pos - 1 ≤ text.length) : first_place whole pos = 4 +
      width ((from_utf8_lossy text).take (if column whole pos - 1 < text.length then
        ended (glyphs text) (column whole pos - 1) else (glyphs text).length)) := by
  obtain ⟨hg, hd, h₀⟩ := h.line_end.glyphs_append
  have hlen := ended_le_length (glyphs text) (column whole pos - 1)
  rw [first_place, h.line_of_eq, hg, hd]
  by_cases hlt : column whole pos - 1 < text.length
  case pos =>
    rw [if_pos hlt, ended_append (byte_count_glyphs text ▸ hlt), List.take_append_of_le_length]
    rw [length_decoded]
    exact hlen
  case neg =>
    have hcount : column whole pos - 1 = byte_count (glyphs text) + 0 := by
      rw [byte_count_glyphs]
      omega
    rw [if_neg hlt, hcount, ended_add, h₀, List.take_append_of_le_length]
    · rfl
    · exact Nat.le_of_eq (length_decoded text).symm

theorem end_place_eq (h : LineOf whole pos before text ending after) : end_place whole pos = 4 +
    if column whole pos - 1 ≤ text.length then
      width ((from_utf8_lossy text).take (begun (glyphs text) (column whole pos - 1)))
    else width (from_utf8_lossy text) + 1 := by
  obtain ⟨hg, hd, _⟩ := h.line_end.glyphs_append
  have hlen := begun_le_length (glyphs text) (column whole pos - 1)
  have hle := h.le_end
  have hcolumn : column whole pos - 1 = pos.offset - before.length := by
    rw [h.column_eq, Nat.add_sub_cancel]
  rw [end_place, h.line_of_eq, hg, hd]
  by_cases hc : column whole pos - 1 ≤ text.length
  case pos =>
    rw [if_pos hc, begun_append (byte_count_glyphs text ▸ hc), List.take_append_of_le_length]
    rw [length_decoded]
    exact hlen
  case neg =>
    -- Only behind a carriage return there is more of the line.
    have hending : ending = ['\r', '\n'] ∧ column whole pos - 1 = byte_count (glyphs text) + 1 := by
      rw [byte_count_glyphs]
      cases h.line_end with
      | file     => rw [List.length_nil] at hle; omega
      | newline  => rw [List.length_singleton] at hle; omega
      | carriage => rw [List.length_cons, List.length_singleton] at hle; exact ⟨rfl, by omega⟩
    rw [if_neg hc, hending.1, hending.2, begun_add fun g hg => size_pos text hg]
    show 4 + width ((from_utf8_lossy text ++ ['\r', '\n']).take ((glyphs text).length + 1)) = _
    rw [← length_decoded, List.take_length_add_append, width_append]
    rfl

variable {pos' : InputPosition} {before' text' ending' after' : List Char}

-- There is one line with a number.
theorem same_line (h : LineOf whole pos before text ending after)
    (h' : LineOf whole pos' before' text' ending' after') (hline : pos.line = pos'.line) :
    text = text' ∧ ending = ending' := by
  have hget := h.text_lines_get
  rw [hline, h'.text_lines_get] at hget
  have hline := Option.some.inj hget
  have htext : text' = text := by
    rw [← strip_line_end_eq h'.line_end h'.no_newline, hline, strip_line_end_eq h.line_end h.no_newline]
  rw [htext] at hline
  exact ⟨htext.symm, (List.append_cancel_left hline).symm⟩

end LineOf

namespace ErrorPlace

open LineOf (length_decoded)

variable {first «end» : InputPosition} {statement : ErrorStatement} {s e : Nat}

-- The marks of a span that does not reach into the line end.
theorem plain_iff (hlt : s < e) (hle : e ≤ text.length) :
    3 + indent_width (from_utf8_lossy text) s =
      4 + width ((from_utf8_lossy text).take (ended (glyphs text) s)) ∧
    3 + indent_width (from_utf8_lossy text) s + marks_width (from_utf8_lossy text) s e =
      4 + width ((from_utf8_lossy text).take (begun (glyphs text) e)) ↔ Plain text s e := by
  have hbytes := length_le_byte_length text
  have hs : s < byte_length (from_utf8_lossy text) := by omega
  have hne : from_utf8_lossy text ≠ [] := fun h => by
    rw [byte_length_eq_zero.mpr h] at hs
    omega
  have hpart : ended (glyphs text) s < begun (glyphs text) e :=
    ended_lt_begun (byte_count_glyphs text ▸ Nat.lt_of_lt_of_le hlt hle) hlt
  have hlen := begun_le_length (glyphs text) e
  have hended := ended_le (fun g hg => size_pos text hg) s
  have hbegun := begun_le (fun g hg => size_pos text hg) e
  rw [indent_width, if_neg hne, marks_width, if_pos hs]
  rw [← length_decoded] at hlen
  have hrest := width_take_add (from_utf8_lossy text) (Nat.le_of_lt hlt)
  have hfirst := width_take_lt hpart hlen
  constructor
  · rintro ⟨hstart, hend⟩
    have hlt' : s < (from_utf8_lossy text).length := by
      by_contra hge
      rw [List.drop_of_length_le (by rw [List.length_take]; omega)] at hend
      have hnil : width [] = 0 := rfl
      omega
    have hsucc := width_take_succ (List.getElem?_eq_getElem hlt')
    have heq : ended (glyphs text) s = s := by
      by_contra hne
      have hlt := width_take_lt (Nat.lt_of_le_of_ne hended hne) (Nat.le_of_lt hlt')
      split at hsucc <;> omega
    refine ⟨hle, heq, ?_, ?_⟩
    · rw [List.getElem?_eq_getElem hlt']
      intro htab
      rw [if_pos (Option.some.inj htab)] at hsucc
      rw [heq] at hstart
      omega
    · by_contra hno
      obtain ⟨hne₁, hne₂⟩ := not_or.mp hno
      rw [← length_decoded] at hne₂
      have hshort := width_take_lt (n := min e (from_utf8_lossy text).length)
        (show begun (glyphs text) e < _ by omega) (Nat.min_le_right _ _)
      rw [← List.take_eq_take_min] at hshort
      rw [heq] at hstart
      omega
  · rintro ⟨_, heq, htab, hmany⟩
    have hlt' : s < (from_utf8_lossy text).length := by omega
    have hsucc := width_take_succ (List.getElem?_eq_getElem hlt')
    rw [List.getElem?_eq_getElem hlt'] at htab
    rw [if_neg fun h => htab (congrArg some h)] at hsucc
    rw [heq]
    refine ⟨by omega, ?_⟩
    have htake : (from_utf8_lossy text).take (begun (glyphs text) e) = (from_utf8_lossy text).take e := by
      rcases hmany with h | h
      · rw [h]
      · rw [h, ← length_decoded, List.take_length, List.take_of_length_le]
        rw [length_decoded, ← h]
        exact hbegun
    rw [htake]
    omega

-- The marks of a span that reaches into the line end.
theorem not_marked (hlt : s < e) (he : e = text.length + 1) (hne : text ≠ [])
    (hfirst : width ((from_utf8_lossy text).take (if s < text.length then ended (glyphs text) s
      else (glyphs text).length)) < width (from_utf8_lossy text) + 1) :
    ¬ (3 + indent_width (from_utf8_lossy text) s = 4 + width ((from_utf8_lossy text).take
        (if s < text.length then ended (glyphs text) s else (glyphs text).length)) ∧
      3 + indent_width (from_utf8_lossy text) s + marks_width (from_utf8_lossy text) s e =
        4 + (width (from_utf8_lossy text) + 1)) := by
  have hne' : from_utf8_lossy text ≠ [] := fun h => hne (from_utf8_lossy_eq_nil h)
  have hlen := length_glyphs_le text
  rw [← length_decoded] at hlen
  rw [indent_width, if_neg hne']
  rintro ⟨hstart, hend⟩
  by_cases hs : s < text.length
  case neg =>
    rw [if_neg hs, ← length_decoded, List.take_length, List.take_of_length_le (by omega)] at hstart
    omega
  case pos =>
    have hbytes := length_le_byte_length text
    have htake : (from_utf8_lossy text).take e = from_utf8_lossy text := List.take_of_length_le (by omega)
    rw [marks_width, if_pos (by omega), htake] at hend
    have hrest := width_take_add (from_utf8_lossy text) (Nat.le_of_lt hlt)
    rw [htake] at hrest
    by_cases hlt' : s < (from_utf8_lossy text).length
    case pos =>
      have hsucc := width_take_succ (List.getElem?_eq_getElem hlt')
      split at hsucc <;> omega
    case neg =>
      rw [List.drop_of_length_le (Nat.not_lt.mp hlt')] at hend
      have hnil : width [] = 0 := rfl
      omega

-- A span of one line can be displayed, and it is underlined if it is plain or its line is empty.
theorem underlined_iff_plain {ending' after' : List Char} (h : LineOf whole first before text ending after)
    (h' : LineOf whole «end» before text ending' after') (hlt : first.offset < end.offset)
    (hc : statement.context = from_utf8_lossy text) :
    Writable statement.context (column whole first - 1) (column whole «end» - 1) ∧
    (Underlined whole first «end» statement.context
        (single_text statement (column whole first - 1) (column whole «end» - 1)) ↔
      text = [] ∨ Plain text (column whole first - 1) (column whole «end» - 1)) := by
  have hstart : column whole first - 1 = first.offset - before.length := by
    rw [h.column_eq, Nat.add_sub_cancel]
  have hend : column whole «end» - 1 = end.offset - before.length := by
    rw [h'.column_eq, Nat.add_sub_cancel]
  have hle := h.start_le
  have hlt' : column whole first - 1 < column whole «end» - 1 := by omega
  have hbound := h'.column_le
  have hbytes := length_le_byte_length text
  have hfirst := h.first_place_eq (by omega)
  have hlast := h'.end_place_eq
  have hfirst_lt : width ((from_utf8_lossy text).take (if column whole first - 1 < text.length then
      ended (glyphs text) (column whole first - 1) else (glyphs text).length)) <
        width (from_utf8_lossy text) + 1 := by
    have hadd := width_append
      ((from_utf8_lossy text).take (if column whole first - 1 < text.length then
        ended (glyphs text) (column whole first - 1) else (glyphs text).length))
      ((from_utf8_lossy text).drop (if column whole first - 1 < text.length then
        ended (glyphs text) (column whole first - 1) else (glyphs text).length))
    rw [List.take_append_drop] at hadd
    omega
  have hplaces : first_place whole first < end_place whole «end» := by
    rw [hfirst, hlast]
    by_cases hle' : column whole «end» - 1 ≤ text.length
    case neg =>
      rw [if_neg hle']
      omega
    case pos =>
      rw [if_pos hle', if_pos (Nat.lt_of_lt_of_le hlt' hle')]
      refine Nat.add_lt_add_left (width_take_lt (ended_lt_begun ?_ hlt') ?_) 4
      · rw [byte_count_glyphs]
        omega
      · exact length_decoded text ▸ begun_le_length _ _
  generalize hs : column whole first - 1 = s at *
  generalize he : column whole «end» - 1 = e at *
  constructor
  · rw [hc]
    constructor
    · intro hnil
      rw [from_utf8_lossy_eq_nil hnil, List.length_nil] at hbound
      omega
    · omega
  · rw [underlined_iff hplaces, hc, hfirst, hlast]
    by_cases hnil : text = []
    case pos =>
      subst hnil
      rw [List.length_nil] at hbound
      have hzero : s = 0 := by omega
      have hone : e = 1 := by omega
      subst hzero hone
      exact ⟨fun _ => .inl rfl, fun _ => ⟨rfl, rfl⟩⟩
    case neg =>
      rw [or_iff_right hnil]
      by_cases hle' : e ≤ text.length
      case pos =>
        rw [if_pos hle', if_pos (Nat.lt_of_lt_of_le hlt' hle')]
        exact plain_iff hlt' hle'
      case neg =>
        rw [if_neg hle']
        exact ⟨fun hm => absurd hm (not_marked hlt' (by omega) hnil hfirst_lt), fun hp => absurd hp.1 hle'⟩

-- What is written for a position.
theorem position_writable (h : LineOf whole pos before text ending after) :
    Writable (from_utf8_lossy text) (column whole pos - 1) (column whole pos) ↔
      column whole pos ≤ text.length + 1 ∨ text.length < byte_length (from_utf8_lossy text) := by
  have hcolumn := h.column_eq
  have hle := h.start_le
  have hbound := h.column_le
  have hbytes := length_le_byte_length text
  constructor
  · rintro ⟨hnil, hw⟩
    omega
  · intro hc
    refine ⟨fun hnil => ?_, by omega⟩
    rw [hnil] at hc
    rw [from_utf8_lossy_eq_nil hnil, List.length_nil] at hc
    have hzero : byte_length [] = 0 := rfl
    omega

theorem split_inclusive_ne_nil (h : Closed before) (hb : before ≠ []) : split_inclusive before ≠ [] := by
  cases h with
  | nil       => exact absurd rfl hb
  | cons hl _ =>
    rw [split_inclusive_newline hl]
    exact List.cons_ne_nil _ _

-- The lines of a text of which the last one has no line end.
theorem lines_cons (h : Closed before) (hb : before ≠ []) (hn : '\n' ∉ text) :
    ∃ first_line lines, ErrorStatement.lines (before ++ text) = first_line :: lines ∧
      (text ≠ [] → lines.getLastD first_line = text) := by
  obtain ⟨line, rest, hs⟩ := List.exists_cons_of_ne_nil (split_inclusive_ne_nil h hb)
  rw [ErrorStatement.lines, split_inclusive_append h, hs, List.cons_append, List.map_cons]
  refine ⟨_, _, rfl, fun hne => ?_⟩
  have hlast : strip_line_end text = text := by
    have he := strip_line_end_eq (.file text) hn
    rw [List.append_nil] at he
    exact he
  rw [split_inclusive_last hn hne, List.map_append, List.map_singleton, hlast, List.getLastD_concat]

-- A span of several lines can be displayed if it does not end at the start of a line.
theorem fmt_multi {mid : List Char} (hk : statement.context_kind = .MultiLine)
    (hc : statement.context = from_utf8_lossy (mid ++ text)) (hm : Closed mid) (hne : mid ≠ [])
    (hn : '\n' ∉ text) (he : statement.end_column = e + 1) (hend : e ≤ text.length + 1) :
    (∃ written, statement.fmt = .ok written) ↔ e ≠ 0 := by
  obtain ⟨hdecoded, hclosed⟩ := decoded_closed hm text
  have hne' : from_utf8_lossy mid ≠ [] := fun h => hne (from_utf8_lossy_eq_nil h)
  obtain ⟨first_line, lines, hlines, hlast⟩ :=
    lines_cons hclosed hne' (newline_not_mem_decoded hn)
  rw [← hdecoded, ← hc] at hlines
  have hfmt : statement.fmt =
      ( extend_annotation 1 (e + 1) (lines.getLastD first_line) '_').bind fun underline =>
        .ok (statement.header ++ (" |- ".toList ++ transform_context first_line ++ ['\n']) ++
          (lines.flatMap fun cur_line => " |  ".toList ++ transform_context cur_line ++ ['\n']) ++
          (" \\__".toList ++ underline ++ "/\n".toList)) := by
    rw [fmt, hk]
    simp only [hlines, he]
    rfl
  rw [hfmt]
  constructor
  · rintro ⟨written, hw⟩ rfl
    cases hw
  · intro hpos
    rw [extend_annotation_eq (Nat.pos_of_ne_zero hpos)]
    by_cases hb : byte_length (lines.getLastD first_line) ≤ 0
    case neg =>
      rw [if_neg hb]
      exact ⟨_, rfl⟩
    case pos =>
      have hnil := byte_length_eq_zero.mp (Nat.le_zero.mp hb)
      have htext : text = [] := by
        by_contra hne
        have hd : from_utf8_lossy text ≠ [] := fun h => hne (from_utf8_lossy_eq_nil h)
        exact hd ((hlast hd).symm.trans hnil)
      rw [htext, List.length_nil] at hend
      rw [if_pos hb, if_pos ⟨(Nat.le_zero.mp hb).symm, by omega⟩]
      exact ⟨_, rfl⟩

end ErrorPlace

-- An error report works, and it points at its place, exactly for the clean places.
theorem error_reports_iff (statement_kind : StatementKind) (filename : String) (whole : List Char)
    (message : String) (place : ErrorPlace) (h : place.Occurs whole) :
    place.Reports statement_kind filename whole message ↔ place.Clean whole := by
  cases place with
  | position pos =>
    obtain ⟨before, text, ending, after, hl⟩ := exists_lineOf (Consumed.within h)
    have hstatement := hl.from_pos statement_kind filename message
    have hcolumn : column whole pos = column whole pos - 1 + 1 := by rw [hl.column_eq, Nat.add_sub_cancel]
    obtain ⟨hok, hfail⟩ := fmt_single (rfl : (ErrorStatement.mk statement_kind .SingleLine
      pos.line (column whole pos) pos.line (column whole pos + 1) filename (from_utf8_lossy text)
      message).context_kind = _) hcolumn rfl (by omega)
    have hw := ErrorPlace.position_writable hl
    rw [ErrorPlace.Clean, hl.strip_eq]
    dsimp only at hok hfail ⊢
    rw [← hw]
    constructor
    · rintro ⟨statement, written, hs, hf, _⟩
      rw [ErrorPlace.statement, hstatement] at hs
      cases hs
      exact by_contra fun hno => hfail hno written hf
    · intro hc
      refine ⟨_, _, hstatement, hok hc, ⟨rfl, rfl, rfl, fun h => absurd rfl h, ?_⟩, fun _ _ h => by cases h⟩
      exact hl.context_lines hl (List.append_nil _).symm .nil rfl
  | span first last =>
    obtain ⟨hfirst, hlast, hlt⟩ := h
    obtain ⟨before, text, ending, after, hl⟩ := exists_lineOf hfirst.within
    obtain ⟨before', text', ending', after', hl'⟩ := exists_lineOf hlast.within
    obtain ⟨mid, hmid, hclosed, hline⟩ := hl.between hfirst.within hlast.within (Nat.le_of_lt hlt) hl'
    have hstatement := hl.from_span hl' hmid hline hlt statement_kind filename message
    have hcontext := hl.context_lines hl' hmid hclosed hline
    have hc : column whole first = column whole first - 1 + 1 := by rw [hl.column_eq, Nat.add_sub_cancel]
    have hc' : column whole last = column whole last - 1 + 1 := by rw [hl'.column_eq, Nat.add_sub_cancel]
    rw [ErrorPlace.Clean, hl.strip_eq]
    dsimp only
    by_cases hsame : first.line = last.line
    case pos =>
      have hnil : mid = [] := by
        refine closed_of_count (show Closed ([] ++ mid) from hclosed) ?_
        omega
      subst hnil
      rw [List.append_nil] at hmid
      subst hmid
      obtain ⟨rfl, rfl⟩ := hl.same_line hl' hsame
      rw [if_pos hsame] at hstatement ⊢
      have hle := hl.start_le
      have hcolumns : column whole first - 1 < column whole last - 1 := by
        rw [hl.column_eq, hl'.column_eq]
        omega
      obtain ⟨hok, _⟩ := fmt_single (rfl : (ErrorStatement.mk statement_kind .SingleLine
        first.line (column whole first) last.line (column whole last) filename (from_utf8_lossy ([] ++ text))
        message).context_kind = _) hc hc' hcolumns
      obtain ⟨hw, hunderlined⟩ := ErrorPlace.underlined_iff_plain hl hl' hlt
        (rfl : (ErrorStatement.mk statement_kind .SingleLine first.line (column whole first) last.line
          (column whole last) filename (from_utf8_lossy ([] ++ text)) message).context = _)
      rw [← hunderlined]
      constructor
      · rintro ⟨statement, written, hs, hf, _, hu⟩
        rw [ErrorPlace.statement, hstatement] at hs
        cases hs
        rw [hok hw] at hf
        cases hf
        exact hu first last rfl hsame
      · intro hu
        refine ⟨_, _, hstatement, hok hw, ⟨rfl, rfl, rfl, fun _ => rfl, hcontext⟩, ?_⟩
        rintro _ _ ⟨⟩ _
        exact hu
    case neg =>
      have hne : mid ≠ [] := by
        rintro rfl
        exact hsame hline.symm
      rw [if_neg hsame] at hstatement ⊢
      have hfmt := ErrorPlace.fmt_multi (rfl : (ErrorStatement.mk statement_kind .MultiLine
        first.line (column whole first) last.line (column whole last) filename (from_utf8_lossy (mid ++ text'))
        message).context_kind = _) rfl hclosed hne hl'.no_newline hc' hl'.column_le
      have hiff : column whole last ≠ 1 ↔ column whole last - 1 ≠ 0 := by omega
      rw [hiff, ← hfmt]
      constructor
      · rintro ⟨statement, written, hs, hf, _⟩
        rw [ErrorPlace.statement, hstatement] at hs
        cases hs
        exact ⟨written, hf⟩
      · rintro ⟨written, hf⟩
        refine ⟨_, written, hstatement, hf, ⟨rfl, rfl, rfl, fun _ => rfl, hcontext⟩, ?_⟩
        rintro _ _ ⟨⟩ he
        exact absurd he hsame

theorem error_reports_plain :
    ErrorPlace.Reports .Error "" ['\t', 'a', 'b', '\r', '\n'] "" (.span ⟨1, 1⟩ ⟨1, 3⟩) := by
  refine (error_reports_iff .Error "" ['\t', 'a', 'b', '\r', '\n'] "" (.span ⟨1, 1⟩ ⟨1, 3⟩) ?_).mpr ?_
  · exact ⟨⟨1, rfl⟩, ⟨3, rfl⟩, by decide⟩
  · exact .inr ⟨by decide, rfl, by decide, .inl rfl⟩

-- A span that ends at the start of a line fails an assertion.
theorem error_report_fails : ErrorPlace.Occurs ['a', '\n', 'b'] (.span ⟨1, 0⟩ ⟨2, 2⟩) ∧
    ¬ ErrorPlace.Reports .Error "" ['a', '\n', 'b'] "" (.span ⟨1, 0⟩ ⟨2, 2⟩) := by
  refine ⟨⟨⟨0, rfl⟩, ⟨2, rfl⟩, by decide⟩, ?_⟩
  rintro ⟨statement, text, hs, hf, _⟩
  cases hs
  cases hf

end Reowolf.Parser
