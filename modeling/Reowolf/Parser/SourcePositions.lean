import Reowolf.Parser.LexemeSpec

namespace Reowolf.Parser

-- A position of a source: an offset up to its end, with the number of the line.
structure InputPosition.Within (whole : List Char) (pos : InputPosition) : Prop where
  offset : pos.offset ≤ whole.length
  line   : pos.line = 1 + (whole.take pos.offset).count '\n'

namespace InputSource

def section_at_pos (whole : List Char) (start «end» : InputPosition) : List Char :=
  (whole.drop start.offset).take (end.offset - start.offset)

-- What has not been consumed yet of a source is what is behind the position.
structure Reads (whole : List Char) (source : InputSource) : Prop where
  pos   : source.pos.Within whole
  input : source.input = whole.drop source.pos.offset

variable {whole : List Char} {source : InputSource}

theorem Reads.new (whole : List Char) : Reads whole (.new whole) :=
  ⟨⟨Nat.zero_le _, rfl⟩, rfl⟩

theorem consume_nil (h : source.input = []) : source.consume = source := by
  rw [consume, h]

theorem pos_consume {c : Char} {input : List Char} (h : source.input = c :: input) :
    source.consume.pos =
      ⟨if c = '\n' then source.pos.line + 1 else source.pos.line, source.pos.offset + 1⟩ := by
  rw [consume, h]

theorem Reads.consume (h : Reads whole source) : Reads whole source.consume := by
  cases hi : source.input with
  | nil =>
    rw [consume_nil hi]
    exact h
  | cons c input =>
    have hdrop : whole.drop source.pos.offset = c :: input := h.input.symm.trans hi
    have hlt : source.pos.offset < whole.length := by
      by_contra hge
      cases (List.drop_eq_nil_of_le (Nat.not_lt.mp hge)).symm.trans hdrop
    have hget : whole[source.pos.offset]? = some c := by
      rw [← Nat.add_zero source.pos.offset, ← List.getElem?_drop, hdrop]
      rfl
    constructor
    case pos =>
      rw [pos_consume hi]
      refine ⟨hlt, ?_⟩
      simp only [List.take_add_one, hget, Option.toList_some, List.count_append, List.count_singleton,
        h.pos.line, beq_iff_eq]
      split <;> rfl
    case input =>
      rw [input_consume, pos_consume hi, ← List.tail_drop, h.input]

theorem Reads.consume_times (h : Reads whole source) (n : Nat) : Reads whole (source.consume_times n) := by
  induction n generalizing source with
  | zero => exact h
  | succ n ih => exact ih h.consume

theorem offset_consume_times {n : Nat} (h : n ≤ source.input.length) :
    (source.consume_times n).pos.offset = source.pos.offset + n := by
  induction n generalizing source with
  | zero => rfl
  | succ n ih =>
    cases hi : source.input with
    | nil =>
      rw [hi] at h
      cases h
    | cons c input =>
      have hlen : n ≤ source.consume.input.length := by
        rw [input_consume, hi]
        rw [hi] at h
        exact Nat.le_of_succ_le_succ h
      rw [InputSource.consume_times, ih hlen, pos_consume hi]
      simp only []
      omega

theorem consume_times_add (m n : Nat) (source : InputSource) :
    source.consume_times (m + n) = (source.consume_times m).consume_times n := by
  induction m generalizing source with
  | zero => rw [Nat.zero_add]; rfl
  | succ m ih => rw [Nat.succ_add]; exact ih source.consume

theorem consume_while_eq (p : Char → Bool) (source : InputSource) :
    source.consume_while p = source.consume_times (source.input.takeWhile p).length := by
  have hgo (input : List Char) (source : InputSource) :
      consume_while.go p input source = source.consume_times (input.takeWhile p).length := by
    induction input generalizing source with
    | nil => rfl
    | cons c input ih =>
      rw [consume_while.go, List.takeWhile_cons]
      split
      · exact ih source.consume
      · rfl
  exact hgo source.input source

-- What has been consumed between two positions.
theorem Reads.section_eq (h : Reads whole source) {n : Nat} (hn : n ≤ source.input.length) :
    section_at_pos whole source.pos (source.consume_times n).pos = source.input.take n := by
  rw [section_at_pos, offset_consume_times hn, Nat.add_sub_cancel_left, ← h.input]

end InputSource

end Reowolf.Parser
