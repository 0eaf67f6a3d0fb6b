import Mathlib.Data.List.Induction
import Reowolf.Parser.ErrorStatements

namespace Reowolf.Parser

open ErrorStatement (split_inclusive strip_line_end)

-- The lines of a text. All of them but the last have a line end.
def text_lines : List Char → List (List Char)
  | [] => [[]]
  | c :: text =>
    if c = '\n' then [c] :: text_lines text
    else match text_lines text with
      | []            => [[c]]
      | line :: lines => (c :: line) :: lines

-- A text that consists of whole lines.
inductive Closed : List Char → Prop
  | nil                                                                   : Closed []
  | cons {line rest} : '\n' ∉ line → Closed rest → Closed (line ++ '\n' :: rest)

-- A line end, and that there is nothing behind a line without one.
inductive LineEnd : List Char → List Char → List Char → Prop
  | file (text)                              : LineEnd text [] []
  | newline {text} (after)                   : text.getLast? ≠ some '\r' → LineEnd text ['\n'] after
  | carriage (text after)                    : LineEnd text ['\r', '\n'] after

-- The line of a source that a position is in.
structure LineOf (whole : List Char) (pos : InputPosition) (before text ending after : List Char) : Prop where
  whole_eq   : whole = before ++ (text ++ (ending ++ after))
  closed     : Closed before
  no_newline : '\n' ∉ text
  line_end   : LineEnd text ending after
  line       : pos.line = 1 + before.count '\n'
  start_le   : before.length ≤ pos.offset
  le_end     : pos.offset ≤ before.length + text.length + (ending.length - 1)

variable {whole before text ending after rest line : List Char} {pos : InputPosition}

theorem text_lines_last (h : '\n' ∉ line) : text_lines line = [line] := by
  induction line with
  | nil => rfl
  | cons c line ih =>
    obtain ⟨hc, h⟩ := not_or.mp (mt List.mem_cons.mpr h)
    rw [text_lines, if_neg (Ne.symm hc), ih h]

theorem text_lines_newline (h : '\n' ∉ line) (rest : List Char) :
    text_lines (line ++ '\n' :: rest) = (line ++ ['\n']) :: text_lines rest := by
  induction line with
  | nil => rfl
  | cons c line ih =>
    obtain ⟨hc, h⟩ := not_or.mp (mt List.mem_cons.mpr h)
    rw [List.cons_append, text_lines, if_neg (Ne.symm hc), ih h]
    rfl

theorem split_inclusive_last (h : '\n' ∉ line) (hne : line ≠ []) : split_inclusive line = [line] := by
  induction line with
  | nil => exact absurd rfl hne
  | cons c line ih =>
    obtain ⟨hc, h⟩ := not_or.mp (mt List.mem_cons.mpr h)
    rw [split_inclusive, if_neg (Ne.symm hc)]
    cases hl : line with
    | nil         => rfl
    | cons c line => rw [← hl, ih h (hl ▸ List.cons_ne_nil c line)]

theorem split_inclusive_newline (h : '\n' ∉ line) (rest : List Char) :
    split_inclusive (line ++ '\n' :: rest) = (line ++ ['\n']) :: split_inclusive rest := by
  induction line with
  | nil => rfl
  | cons c line ih =>
    obtain ⟨hc, h⟩ := not_or.mp (mt List.mem_cons.mpr h)
    rw [List.cons_append, split_inclusive, if_neg (Ne.symm hc), ih h]
    rfl

theorem Closed.append_line (h : Closed before) (hl : '\n' ∉ line) :
    Closed (before ++ (line ++ ['\n'])) := by
  induction h with
  | nil => exact .cons hl .nil
  | cons h _ ih =>
    rw [List.append_assoc]
    exact .cons h ih

theorem Closed.eq_nil_or_concat (h : Closed text) : text = [] ∨ ∃ front, text = front ++ ['\n'] := by
  induction h with
  | nil => exact .inl rfl
  | @cons line rest _ _ ih =>
    rcases ih with rfl | ⟨front, rfl⟩
    · exact .inr ⟨line, rfl⟩
    · exact .inr ⟨line ++ '\n' :: front, (List.append_assoc line ('\n' :: front) ['\n']).symm⟩

theorem text_lines_append (h : Closed text) (rest : List Char) :
    text_lines (text ++ rest) = split_inclusive text ++ text_lines rest := by
  induction h with
  | nil => rfl
  | cons hl _ ih =>
    rw [List.append_assoc, List.cons_append, text_lines_newline hl, split_inclusive_newline hl, ih]
    rfl

theorem split_inclusive_append (h : Closed text) (rest : List Char) :
    split_inclusive (text ++ rest) = split_inclusive text ++ split_inclusive rest := by
  induction h with
  | nil => rfl
  | cons hl _ ih =>
    rw [List.append_assoc, List.cons_append, split_inclusive_newline hl, split_inclusive_newline hl, ih]
    rfl

theorem length_split_inclusive (h : Closed text) : (split_inclusive text).length = text.count '\n' := by
  induction h with
  | nil => rfl
  | cons hl _ ih =>
    rw [split_inclusive_newline hl, List.length_cons, ih, List.count_append, List.count_eq_zero.mpr hl,
      List.count_cons_self, Nat.zero_add]

theorem strip_line_end_eq (h : LineEnd text ending after) (hn : '\n' ∉ text) :
    strip_line_end (text ++ ending) = text := by
  cases h with
  | file =>
    have hne : text.getLast? ≠ some '\n' := fun he => hn (List.mem_of_getLast? he)
    rw [List.append_nil, strip_line_end, if_neg hne]
  | newline after hr =>
    rw [strip_line_end, if_pos List.getLast?_concat, List.dropLast_concat, if_neg hr]
  | carriage =>
    have he : text ++ ['\r', '\n'] = (text ++ ['\r']) ++ ['\n'] := by
      rw [List.append_assoc]
      rfl
    rw [he, strip_line_end, if_pos List.getLast?_concat, List.dropLast_concat,
      if_pos List.getLast?_concat, List.dropLast_concat]

theorem LineEnd.closed (h : LineEnd text ending after) (hn : '\n' ∉ text) (hne : ending ≠ [])
    (hb : Closed before) : Closed (before ++ (text ++ ending)) := by
  cases h with
  | file => exact absurd rfl hne
  | newline => exact hb.append_line hn
  | carriage =>
    have hc := hb.append_line (List.not_mem_append hn (by decide : '\n' ∉ ['\r']))
    rw [List.append_assoc text] at hc
    exact hc

theorem LineEnd.text_lines (h : LineEnd text ending after) (hn : '\n' ∉ text) :
    ∃ lines, text_lines (text ++ (ending ++ after)) = (text ++ ending) :: lines := by
  cases h with
  | file => exact ⟨[], by rw [List.append_nil, List.append_nil, text_lines_last hn]⟩
  | newline after => exact ⟨_, text_lines_newline hn after⟩
  | carriage after =>
    have hr : '\n' ∉ text ++ ['\r'] := List.not_mem_append hn (by decide)
    have he := text_lines_newline hr after
    rw [List.append_assoc, List.append_assoc] at he
    exact ⟨_, he⟩

-- The line is the one with the number of the position.
theorem LineOf.text_lines_get (h : LineOf whole pos before text ending after) :
    (text_lines whole)[pos.line - 1]? = some (text ++ ending) := by
  obtain ⟨lines, hl⟩ := h.line_end.text_lines h.no_newline
  rw [h.whole_eq, text_lines_append h.closed, hl, h.line, Nat.add_sub_cancel_left,
    ← length_split_inclusive h.closed, List.getElem?_append_right (Nat.le_refl _), Nat.sub_self]
  rfl

theorem closed_of_count (h : Closed (before ++ rest)) (hc : rest.count '\n' = 0) : rest = [] := by
  cases rest using List.reverseRecOn with
  | nil => rfl
  | append_singleton rest c =>
    rcases h.eq_nil_or_concat with he | ⟨front, he⟩
    · exact absurd (List.append_eq_nil_iff.mp he).2 (List.append_ne_nil_of_right_ne_nil _ (List.cons_ne_nil c []))
    · rw [← List.append_assoc] at he
      rw [(List.append_inj' he rfl).2, List.count_append, List.count_singleton_self] at hc
      omega

theorem exists_last_line (xs : List Char) :
    ∃ before line, xs = before ++ line ∧ Closed before ∧ '\n' ∉ line := by
  induction xs using List.reverseRecOn with
  | nil => exact ⟨[], [], rfl, .nil, List.not_mem_nil⟩
  | append_singleton xs c ih =>
    obtain ⟨before, line, rfl, hc, hl⟩ := ih
    by_cases h : c = '\n'
    case pos =>
      subst h
      refine ⟨_, [], (List.append_nil _).symm, ?_, List.not_mem_nil⟩
      rw [List.append_assoc]
      exact hc.append_line hl
    case neg =>
      refine ⟨before, line ++ [c], List.append_assoc _ _ _, hc, List.not_mem_append hl ?_⟩
      exact fun hm => h (List.mem_singleton.mp hm).symm

theorem closed_concat (front : List Char) : Closed (front ++ ['\n']) := by
  obtain ⟨before, line, rfl, hc, hl⟩ := exists_last_line front
  rw [List.append_assoc]
  exact hc.append_line hl

theorem Closed.of_append (h : Closed (before ++ rest)) : Closed rest := by
  cases rest using List.reverseRecOn with
  | nil => exact .nil
  | append_singleton rest c =>
    rcases h.eq_nil_or_concat with he | ⟨front, he⟩
    · exact absurd (List.append_eq_nil_iff.mp he).2 (List.append_ne_nil_of_right_ne_nil _ (List.cons_ne_nil c []))
    · rw [← List.append_assoc] at he
      rw [(List.append_inj' he rfl).2]
      exact closed_concat rest

-- Where a line ends, what is in front of a newline tells which line end it is.
theorem exists_line_end (hl : '\n' ∉ line) (rest : List Char) : ∃ text ending after,
    line ++ rest = text ++ (ending ++ after) ∧ '\n' ∉ text ∧ LineEnd text ending after ∧
    line.length ≤ text.length + (ending.length - 1) := by
  by_cases hm : '\n' ∈ rest
  case neg => exact ⟨line ++ rest, [], [], by simp, List.not_mem_append hl hm, .file _, by simp⟩
  case pos =>
    obtain ⟨front, after, rfl, hf⟩ := List.eq_append_cons_of_mem hm
    have hn : '\n' ∉ line ++ front := List.not_mem_append hl hf
    by_cases hr : (line ++ front).getLast? = some '\r'
    case neg => exact ⟨line ++ front, ['\n'], after, by simp, hn, .newline after hr, by simp⟩
    case pos =>
      obtain ⟨text, he⟩ := List.getLast?_eq_some_iff.mp hr
      have hlen := congrArg List.length he
      refine ⟨text, ['\r', '\n'], after, ?_, fun hm => hn (he ▸ List.mem_append_left _ hm), .carriage text after, ?_⟩
      · rw [← List.append_assoc, he, List.append_assoc]
        rfl
      · simp only [List.length_append, List.length_cons, List.length_nil] at hlen ⊢
        omega

theorem exists_lineOf (h : pos.Within whole) :
    ∃ before text ending after, LineOf whole pos before text ending after := by
  obtain ⟨before, line, he, hc, hl⟩ := exists_last_line (whole.take pos.offset)
  obtain ⟨text, ending, after, he', hn, hend, hle⟩ := exists_line_end hl (whole.drop pos.offset)
  have hlen : pos.offset = before.length + line.length := by
    rw [← List.length_append, ← he, List.length_take, Nat.min_eq_left h.offset]
  refine ⟨before, text, ending, after, ?_, hc, hn, hend, ?_, ?_, ?_⟩
  · rw [← he', ← List.append_assoc, ← he, List.take_append_drop]
  · rw [h.line, he, List.count_append, List.count_eq_zero.mpr hl, Nat.add_zero]
  · omega
  · omega

namespace InputSource

theorem length_line_starts (char_idx : Nat) (xs : List Char) :
    (line_starts char_idx xs).length = xs.count '\n' := by
  induction xs generalizing char_idx with
  | nil => rfl
  | cons c xs ih =>
    rw [line_starts, List.count_cons, ← ih (char_idx + 1)]
    by_cases h : c = '\n' <;> simp [h]

theorem line_starts_append (char_idx : Nat) (xs ys : List Char) :
    line_starts char_idx (xs ++ ys) = line_starts char_idx xs ++ line_starts (char_idx + xs.length) ys := by
  induction xs generalizing char_idx with
  | nil => rfl
  | cons c xs ih =>
    rw [List.cons_append, line_starts, line_starts, ih, List.length_cons, Nat.add_right_comm, Nat.add_assoc]
    split <;> rfl

-- The entry of a line is where the lines in front of it end.
theorem lookup_closed (h : Closed before) (rest : List Char) :
    lookup (before ++ rest) (1 + before.count '\n') = .ok before.length := by
  rw [lookup, get_lookup]
  rcases h.eq_nil_or_concat with rfl | ⟨front, rfl⟩
  · rfl
  · have hget : (line_starts 0 (front ++ ['\n'] ++ rest))[front.count '\n']? = some (front.length + 1) := by
      rw [List.append_assoc, line_starts_append, List.getElem?_append_right (Nat.le_of_eq (length_line_starts 0 front)),
        length_line_starts, Nat.sub_self, Nat.zero_add]
      rfl
    obtain ⟨hlt, _⟩ := List.getElem?_eq_some_iff.mp hget
    have hcount : (front ++ ['\n']).count '\n' = front.count '\n' + 1 := by
      rw [List.count_append]
      rfl
    rw [hcount, List.length_append, List.append_assoc, Nat.add_comm 1]
    show (((line_starts 0 (front ++ ['\n'] ++ rest)) ++ _)[front.count '\n']?).elim _ _ = _
    rw [List.getElem?_append_left hlt, hget, List.length_append]
    rfl

theorem lookup_last (hb : whole = before ++ text) (hn : '\n' ∉ text) :
    lookup whole (1 + before.count '\n' + 1) = .ok (whole.length + 1) := by
  have hlen : (line_starts 0 whole).length = before.count '\n' := by
    rw [length_line_starts, hb, List.count_append, List.count_eq_zero.mpr hn, Nat.add_zero]
  rw [lookup, get_lookup, List.append_assoc, Nat.add_comm 1]
  show (((line_starts 0 whole) ++ [whole.length + 1])[before.count '\n']?).elim _ _ = _
  rw [← hlen, List.getElem?_concat_length]
  rfl

end InputSource

namespace LineOf

open InputSource

theorem start_offset (h : LineOf whole pos before text ending after) :
    lookup_line_start_offset whole pos.line = .ok before.length := by
  rw [lookup_line_start_offset, h.whole_eq, h.line]
  exact lookup_closed h.closed _

theorem lookup_next (h : LineOf whole pos before text ending after) (hne : ending ≠ []) :
    lookup whole (pos.line + 1) = .ok (before.length + text.length + ending.length) := by
  have hc := h.line_end.closed h.no_newline hne h.closed
  have hcount : (before ++ (text ++ ending)).count '\n' = before.count '\n' + 1 := by
    rw [List.count_append, List.count_append, List.count_eq_zero.mpr h.no_newline]
    cases h.line_end with
    | file     => exact absurd rfl hne
    | newline  => rfl
    | carriage => rfl
  have hl := lookup_closed hc after
  rw [hcount, List.append_assoc, List.append_assoc, ← h.whole_eq, ← Nat.add_assoc, ← h.line,
    List.length_append, List.length_append, ← Nat.add_assoc] at hl
  exact hl

-- The end of a line is where its line end begins.
theorem end_offset (h : LineOf whole pos before text ending after) :
    lookup_line_end_offset whole pos.line = .ok (before.length + text.length) := by
  have hwhole := h.whole_eq
  have hnext := h.lookup_next
  have hclosed := h.closed.eq_nil_or_concat
  have hn := h.no_newline
  rw [lookup_line_end_offset]
  cases h.line_end with
  | file =>
    rw [List.append_nil, List.append_nil] at hwhole
    have hlen : whole.length = before.length + text.length := by rw [hwhole, List.length_append]
    have hget : whole[whole.length]? = none := List.getElem?_eq_none (Nat.le_refl _)
    rw [h.line, lookup_last hwhole hn, Except.ok_bind]
    simp only [checked_sub, if_pos (Nat.le_add_left 1 _), Except.ok_bind, Nat.add_sub_cancel, hget]
    rw [if_neg (fun hc => by cases hc.2.1), hlen]
  | newline after hr =>
    have hlast : ¬ (before.length + text.length > 0 ∧ whole[before.length + text.length]? = some '\n' ∧
        whole[before.length + text.length - 1]? = some '\r') := by
      rintro ⟨hpos, _, hget⟩
      rw [hwhole, ← List.append_assoc, ← List.length_append, List.getElem?_append_left (by
        rw [List.length_append]; omega), ← List.getLast?_eq_getElem?, List.getLast?_append] at hget
      rcases List.eq_nil_or_concat text with rfl | ⟨front, c, rfl⟩
      · rcases hclosed with rfl | ⟨front, rfl⟩
        · cases hget
        · rw [List.getLast?_concat] at hget
          cases hget
      · rw [List.concat_eq_append, List.getLast?_concat] at hget hr
        exact hr hget
    rw [hnext (List.cons_ne_nil _ _), Except.ok_bind]
    simp only [checked_sub, List.length_singleton, if_pos (Nat.le_add_left 1 _), Except.ok_bind,
      Nat.add_sub_cancel, if_neg hlast]
  | carriage after =>
    have hget : whole[before.length + text.length + 1]? = some '\n' ∧
        whole[before.length + text.length + 1 - 1]? = some '\r' := by
      rw [hwhole, ← List.append_assoc, ← List.length_append, Nat.add_sub_cancel,
        List.getElem?_append_right (Nat.le_add_right _ 1), List.getElem?_append_right (Nat.le_refl _),
        Nat.add_sub_cancel_left, Nat.sub_self]
      exact ⟨rfl, rfl⟩
    rw [hnext (List.cons_ne_nil _ _), Except.ok_bind]
    simp only [checked_sub, List.length_cons, List.length_nil, if_pos (Nat.le_add_left 1 _), Except.ok_bind]
    show (if before.length + text.length + 1 > 0 ∧ _ then _ else _) = _
    rw [if_pos ⟨Nat.succ_pos _, hget⟩]
    rfl

-- In front of a position there is the beginning of its line.
theorem take_offset (h : LineOf whole pos before text ending after) :
    whole.take pos.offset = before ++ (text ++ ending).take (pos.offset - before.length) ∧
    '\n' ∉ (text ++ ending).take (pos.offset - before.length) := by
  have hle := h.le_end
  constructor
  · rw [h.whole_eq, List.take_append, List.take_of_length_le h.start_le, ← List.append_assoc text,
      List.take_append_of_le_length]
    rw [List.length_append]
    omega
  · have hn := h.no_newline
    cases h.line_end with
    | file =>
      rw [List.append_nil]
      exact fun hm => hn (List.mem_of_mem_take hm)
    | newline after =>
      rw [List.length_singleton] at hle
      rw [List.take_append_of_le_length (by omega)]
      exact fun hm => hn (List.mem_of_mem_take hm)
    | carriage after =>
      rw [List.length_cons, List.length_singleton] at hle
      have he : text ++ ['\r', '\n'] = (text ++ ['\r']) ++ ['\n'] := by
        rw [List.append_assoc]
        rfl
      rw [he, List.take_append_of_le_length (by rw [List.length_append, List.length_singleton]; omega)]
      exact fun hm => List.not_mem_append hn (by decide) (List.mem_of_mem_take hm)

-- The lines from that of one position up to that of a position behind it.
theorem between {pos' : InputPosition} {before' text' ending' after' : List Char} (hw : pos.Within whole)
    (hw' : pos'.Within whole) (hlt : pos.offset ≤ pos'.offset) (h : LineOf whole pos before text ending after)
    (h' : LineOf whole pos' before' text' ending' after') :
    ∃ mid, before' = before ++ mid ∧ Closed mid ∧ pos'.line = pos.line + mid.count '\n' := by
  have hle : pos.line ≤ pos'.line := by
    rw [hw.line, hw'.line]
    exact Nat.add_le_add_left ((List.take_prefix_take_left hlt).sublist.count_le '\n') 1
  have hprefix : before <+: whole := ⟨_, h.whole_eq.symm⟩
  have hprefix' : before' <+: whole := ⟨_, h'.whole_eq.symm⟩
  rcases List.prefix_or_prefix_of_prefix hprefix hprefix' with ⟨mid, rfl⟩ | ⟨mid, rfl⟩
  · refine ⟨mid, rfl, h'.closed.of_append, ?_⟩
    rw [h'.line, h.line, List.count_append, Nat.add_assoc]
  · rw [h'.line, h.line, List.count_append] at hle
    have hmid := closed_of_count h.closed (by omega)
    subst hmid
    exact ⟨[], (List.append_nil _).symm ▸ (List.append_nil _).symm, .nil, by rw [h'.line, h.line, List.append_nil]; rfl⟩

end LineOf

end Reowolf.Parser
