import Mathlib.Algebra.Group.Nat.Even
import Mathlib.Data.Nat.Find
import Mathlib.Order.Bounds.Basic
import Reowolf.Parser.TokenizerRuns

namespace Reowolf.Parser

-- The number of backslashes at the end of a text.
def backslashes (text : List Char) : Nat := (text.reverse.takeWhile (· = '\\')).length

-- Whether a text ends in the middle of an escape, the way the parser keeps account of it.
def was_escape (text : List Char) : Bool :=
  text.foldl (fun was_escape cur => cur = '\\' && !was_escape) false

-- A quotation mark that ends a string, behind an even number of backslashes.
structure ClosesAt (text : List Char) (n : Nat) : Prop where
  quote : text[n]? = some '"'
  even  : Even (backslashes (text.take n))

theorem backslashes_concat (text : List Char) (c : Char) :
    backslashes (text ++ [c]) = if c = '\\' then backslashes text + 1 else 0 := by
  rw [backslashes, List.reverse_append, List.reverse_singleton, List.singleton_append, List.takeWhile_cons]
  by_cases hc : c = '\\'
  case pos => rw [if_pos hc, if_pos (decide_eq_true hc), List.length_cons, backslashes]
  case neg => rw [if_neg hc, if_neg (by simpa using hc), List.length_nil]

theorem was_escape_concat (text : List Char) (c : Char) :
    was_escape (text ++ [c]) = (c = '\\' && !was_escape text) := by
  rw [was_escape, List.foldl_append]
  rfl

theorem was_escape_iff (text : List Char) : was_escape text = true ↔ ¬Even (backslashes text) := by
  induction text using List.reverseRecOn with
  | nil => exact iff_of_false (by decide) (not_not.mpr ⟨0, rfl⟩)
  | append_singleton text c ih =>
    rw [was_escape_concat, backslashes_concat]
    by_cases hc : c = '\\'
    case pos =>
      rw [if_pos hc, decide_eq_true hc, Bool.true_and, Nat.even_add_one, not_not, Bool.not_eq_true', ← Bool.not_eq_true,
        ih, not_not]
    case neg =>
      rw [if_neg hc, decide_eq_false hc, Bool.false_and]
      exact iff_of_false (by decide) (not_not.mpr ⟨0, rfl⟩)

theorem closesAt_iff {text : List Char} {n : Nat} :
    ClosesAt text n ↔ text[n]? = some '"' ∧ was_escape (text.take n) = false := by
  constructor
  · rintro ⟨hq, he⟩
    exact ⟨hq, Bool.eq_false_iff.mpr fun h => (was_escape_iff _).mp h he⟩
  · rintro ⟨hq, he⟩
    exact ⟨hq, not_not.mp fun h => Bool.eq_false_iff.mp he ((was_escape_iff _).mpr h)⟩

namespace PassTokenizer

variable {source : InputSource} {text skipped rest : List Char}

-- Text that the loop over a string goes on behind. The last character stands for the escape that it may
-- have begun.
theorem consume_string_literal_rest_append (before rest : List Char) (prev_char : Char) (source : InputSource)
    (hp : prev_char = '\\' ↔ was_escape before = true) (ha : ∀ c ∈ skipped, c.toNat < 128)
    (hu : ∀ m, skipped[m]? = some '"' → was_escape (before ++ skipped.take m) = true) :
    ∃ last, (last = '\\' ↔ was_escape (before ++ skipped) = true) ∧
      (last = '"' ↔ skipped.getLast?.getD prev_char = '"') ∧
      consume_string_literal_rest (skipped ++ rest) prev_char source =
        consume_string_literal_rest rest last (source.consume_times skipped.length) := by
  induction skipped generalizing before prev_char source with
  | nil => exact ⟨prev_char, by rwa [List.append_nil], Iff.rfl, rfl⟩
  | cons c skipped ih =>
    have hopen : ¬(c = '"' ∧ prev_char ≠ '\\') := by
      rintro ⟨rfl, hne⟩
      have he := hu 0 rfl
      rw [List.take_zero, List.append_nil] at he
      exact hne (hp.mpr he)
    have hstep : consume_string_literal_rest (c :: skipped ++ rest) prev_char source =
        consume_string_literal_rest (skipped ++ rest) (if prev_char = '\\' ∧ c = '\\' then '\x00' else c)
          source.consume := by
      rw [List.cons_append, consume_string_literal_rest, if_pos (ha c List.mem_cons_self), if_neg hopen]
    have hassoc (text : List Char) : before ++ [c] ++ text = before ++ c :: text := List.append_cons .. |>.symm
    have hp' : (if prev_char = '\\' ∧ c = '\\' then '\x00' else c) = '\\' ↔
        was_escape (before ++ [c]) = true := by
      rw [was_escape_concat, Bool.and_eq_true, decide_eq_true_eq, Bool.not_eq_true', ← Bool.not_eq_true, ← hp]
      split
      case isTrue h => exact iff_of_false (by decide) fun hn => hn.2 h.1
      case isFalse h => exact ⟨fun hc => ⟨hc, fun hp => h ⟨hp, hc⟩⟩, And.left⟩
    obtain ⟨last, he, hq, hrest⟩ := ih _ _ source.consume hp' (fun d hd => ha d (List.mem_cons_of_mem _ hd)) fun m hm => by
      rw [hassoc]
      exact hu (m + 1) hm
    refine ⟨last, by rw [he, hassoc], hq.trans ?_, hstep.trans hrest⟩
    cases skipped with
    | nil =>
      change (if prev_char = '\\' ∧ c = '\\' then '\x00' else c) = '"' ↔ c = '"'
      split
      case isTrue h => exact iff_of_false (by decide) (by rw [h.2]; decide)
      case isFalse => rfl
    | cons d skipped => rfl

theorem consume_string_literal_eq (hi : source.input = '"' :: text) :
    consume_string_literal source =
      consume_string_literal_rest text '"' source.consume >>= fun (prev_char, source') =>
        if prev_char = '"' then .ok (spanned .string source.pos source'.pos, source')
        else .error (.parseError "encountered unterminated string literal") := by
  rw [consume_string_literal, InputSource.input_consume, hi]
  rfl

-- The loop over a string, as far as there is nothing that ends it.
theorem consume_string_literal_append (hi : source.input = '"' :: (skipped ++ rest))
    (ha : ∀ c ∈ skipped, c.toNat < 128) (hu : ∀ n < skipped.length, ¬ClosesAt skipped n) :
    ∃ last, (last = '\\' ↔ was_escape skipped = true) ∧ (last = '"' ↔ skipped.getLast?.getD '"' = '"') ∧
      consume_string_literal source =
        consume_string_literal_rest rest last (source.consume_times (skipped.length + 1)) >>=
          fun (prev_char, source') =>
            if prev_char = '"' then .ok (spanned .string source.pos source'.pos, source')
            else .error (.parseError "encountered unterminated string literal") := by
  have hescaped (m : Nat) (hm : skipped[m]? = some '"') : was_escape (skipped.take m) = true := by
    by_contra he
    exact hu m (List.getElem?_eq_some_iff.mp hm).1 (closesAt_iff.mpr ⟨hm, Bool.eq_false_iff.mpr he⟩)
  obtain ⟨last, he, hq, hrest⟩ := consume_string_literal_rest_append [] rest '"' source.consume (by decide) ha
    hescaped
  refine ⟨last, he, hq, ?_⟩
  rw [consume_string_literal_eq hi, hrest]
  rfl

theorem closesAt_take {n m : Nat} (hm : m < n) : ClosesAt (text.take n) m ↔ ClosesAt text m := by
  rw [closesAt_iff, closesAt_iff, List.getElem?_take_of_lt hm, List.take_take, Nat.min_eq_left (Nat.le_of_lt hm)]

theorem consume_string_literal_closed {n : Nat} (hi : source.input = '"' :: text)
    (hn : IsLeast {n | ClosesAt text n} n) (ha : ∀ c ∈ text.take n, c.toNat < 128) :
    consume_string_literal source =
      .ok (spanned .string source.pos (source.consume_times (n + 2)).pos, source.consume_times (n + 2)) := by
  obtain ⟨hq, he⟩ := closesAt_iff.mp hn.1
  obtain ⟨hlt, hget⟩ := List.getElem?_eq_some_iff.mp hq
  have hsplit : text = text.take n ++ '"' :: text.drop (n + 1) := by
    rw [← hget, List.getElem_cons_drop, List.take_append_drop]
  have hlen : (text.take n).length = n := by
    rw [List.length_take]
    omega
  obtain ⟨last, hlast, _, heq⟩ := consume_string_literal_append (hi.trans (congrArg _ hsplit)) ha fun m hm hc => by
    rw [hlen] at hm
    exact absurd (hn.2 ((closesAt_take hm).mp hc)) (by omega)
  have hne : last ≠ '\\' := fun hl => by
    rw [he] at hlast
    cases hlast.mp hl
  rw [heq, consume_string_literal_rest, if_pos (by decide), if_pos ⟨rfl, hne⟩, Except.ok_bind, hlen]
  have htimes : (source.consume_times (n + 1)).consume = source.consume_times (n + 2) :=
    (InputSource.consume_times_add (n + 1) 1 source).symm
  simp only [if_true, htimes]

-- Without a quotation mark that ends it a string goes on to the end of the file.
theorem consume_string_literal_unclosed (hi : source.input = '"' :: text) (hn : ∀ n, ¬ClosesAt text n)
    (ha : ∀ c ∈ text, c.toNat < 128) :
    consume_string_literal source =
      if text.getLast?.getD '"' = '"' then
        .ok (spanned .string source.pos (source.consume_times (text.length + 1)).pos,
          source.consume_times (text.length + 1))
      else .error (.parseError "encountered unterminated string literal") := by
  obtain ⟨last, _, hlast, heq⟩ := consume_string_literal_append
    (hi.trans (congrArg _ (List.append_nil text).symm)) ha fun n _ => hn n
  rw [heq, consume_string_literal_rest, Except.ok_bind]
  simp only [hlast]

theorem consume_string_literal_non_ascii {c : Char} (hi : source.input = '"' :: (skipped ++ c :: rest))
    (ha : ∀ c ∈ skipped, c.toNat < 128) (hu : ∀ n < skipped.length, ¬ClosesAt skipped n) (hc : ¬c.toNat < 128) :
    consume_string_literal source = .error (.parseError "non-ASCII character in string literal") := by
  obtain ⟨last, _, _, heq⟩ := consume_string_literal_append hi ha hu
  rw [heq, consume_string_literal_rest, if_neg hc]
  rfl

-- What there is behind the quotation mark that starts a string.
inductive StringText (text : List Char) : Prop
  | closed (n : Nat) : IsLeast {n | ClosesAt text n} n → (∀ c ∈ text.take n, c.toNat < 128) → StringText text
  | unclosed : (∀ n, ¬ClosesAt text n) → (∀ c ∈ text, c.toNat < 128) → StringText text
  | non_ascii (skipped rest : List Char) (c : Char) : text = skipped ++ c :: rest → (∀ c ∈ skipped, c.toNat < 128) →
    (∀ n < skipped.length, ¬ClosesAt skipped n) → ¬c.toNat < 128 → StringText text

theorem stringText (text : List Char) : StringText text := by
  classical
  by_cases hex : ∃ n, ClosesAt text n ∧ ∀ c ∈ text.take n, c.toNat < 128
  case pos =>
    obtain ⟨n, hn, ha⟩ := hex
    have hleast : IsLeast {n | ClosesAt text n} (Nat.find ⟨n, hn⟩) :=
      ⟨Nat.find_spec ⟨n, hn⟩, fun m hm => Nat.find_min' ⟨n, hn⟩ hm⟩
    refine .closed _ hleast fun c hc => ha c ?_
    exact (List.take_prefix_take_left (hleast.2 hn)).subset hc
  case neg =>
  by_cases hall : ∀ c ∈ text, c.toNat < 128
  case pos => exact .unclosed (fun n hn => hex ⟨n, hn, fun c hc => hall c (List.mem_of_mem_take hc)⟩) hall
  case neg =>
    have hsplit := (List.takeWhile_append_dropWhile (p := fun c : Char => decide (c.toNat < 128)) (l := text)).symm
    have hskipped : ∀ c ∈ text.takeWhile (fun c => decide (c.toNat < 128)), c.toNat < 128 :=
      fun c hc => of_decide_eq_true (List.all_eq_true.mp List.all_takeWhile c hc)
    cases hrest : text.dropWhile (fun c => decide (c.toNat < 128)) with
    | nil =>
      rw [hrest, List.append_nil] at hsplit
      exact absurd (hsplit ▸ hskipped) hall
    | cons c rest =>
      rw [hrest] at hsplit
      refine .non_ascii _ rest c hsplit hskipped (fun n hn hc => hex ⟨n, ?_, fun d hd => hskipped d ?_⟩) ?_
      · have htake : text.takeWhile (fun c => decide (c.toNat < 128)) =
            text.take (text.takeWhile (fun c => decide (c.toNat < 128))).length :=
          List.prefix_iff_eq_take.mp (List.takeWhile_prefix _)
        rw [htake] at hc
        exact (closesAt_take hn).mp hc
      · rw [hsplit, List.take_append_of_le_length (Nat.le_of_lt hn)] at hd
        exact List.mem_of_mem_take hd
      · have hhead := List.head?_dropWhile_not (fun c => decide (c.toNat < 128)) text
        rw [hrest] at hhead
        simpa using hhead

-- A quotation mark that starts a string: the main loop comes to it.
structure StartsString (whole : List Char) (pass : PassTokenizer) (target : TokenBuffer) (source : InputSource)
    (text : List Char) : Prop where
  reached : Reaches ⟨[], 0⟩ whole pass target source
  input   : source.input = '"' :: text

-- What becomes of the strings of a file. Nothing is said about a file that ends directly behind a
-- quotation mark which starts a string, or with an escaped one.
structure StringBoundaries (whole : List Char) : Prop where
  closed : ∀ pass target source text n, StartsString whole pass target source text →
    IsLeast {n | ClosesAt text n} n → (∀ c ∈ text.take n, c.toNat < 128) →
    ∃ source', Reaches ⟨[], 0⟩ whole pass
        ⟨target.tokens ++ spanned .string source.pos source'.pos, target.ranges⟩ source' ∧
      source'.pos.offset = source.pos.offset + n + 2 ∧
      source.input.take (n + 2) = '"' :: (text.take n ++ ['"']) ∧
      InputSource.section_at_pos whole source.pos source'.pos = source.input.take (n + 2) ∧
      was_escape (text.take n) = false
  non_ascii : ∀ pass target source skipped c rest, StartsString whole pass target source (skipped ++ c :: rest) →
    (∀ c ∈ skipped, c.toNat < 128) → (∀ n < skipped.length, ¬ClosesAt skipped n) → ¬c.toNat < 128 →
    tokenize whole = .error (.parseError "non-ASCII character in string literal")
  unclosed : ∀ pass target source text, StartsString whole pass target source text → (∀ n, ¬ClosesAt text n) →
    (∀ c ∈ text, c.toNat < 128) → text ≠ [] → text.getLast? ≠ some '"' →
    tokenize whole = .error (.parseError "encountered unterminated string literal")
  unterminated : tokenize whole = .error (.parseError "encountered unterminated string literal") →
    ∃ pass target source text, StartsString whole pass target source text ∧ ∀ n, ¬ClosesAt text n

section

variable {whole : List Char} {pass : PassTokenizer} {target : TokenBuffer}

theorem consume_lexeme_string :
    consume_lexeme '"' source =
      consume_string_literal source >>= fun (tokens, source') => .ok (.tokens tokens none, source') :=
  rfl

theorem StartsString.next (h : StartsString whole pass target source text) : source.next = some '"' := by
  rw [InputSource.next, h.input]
  rfl

theorem StartsString.error {e : Failure} (h : StartsString whole pass target source text)
    (he : consume_string_literal source = .error e) : tokenize whole = .error e := by
  obtain ⟨fuel, hf, heq⟩ := h.reached.tokenize_rounds_eq
  cases fuel with
  | zero => exact absurd hf (Nat.not_lt_zero _)
  | succ fuel =>
    rw [tokenize_rounds_succ h.next, consume_lexeme_string, he] at heq
    rw [tokenize, heq]
    rfl

theorem StartsString.closed {n : Nat} (h : StartsString whole pass target source text)
    (hn : IsLeast {n | ClosesAt text n} n) (ha : ∀ c ∈ text.take n, c.toNat < 128) :
    ∃ source', Reaches ⟨[], 0⟩ whole pass
        ⟨target.tokens ++ spanned .string source.pos source'.pos, target.ranges⟩ source' ∧
      source'.pos.offset = source.pos.offset + n + 2 ∧
      source.input.take (n + 2) = '"' :: (text.take n ++ ['"']) ∧
      InputSource.section_at_pos whole source.pos source'.pos = source.input.take (n + 2) ∧
      was_escape (text.take n) = false := by
  obtain ⟨hq, he⟩ := closesAt_iff.mp hn.1
  have hle : n + 2 ≤ source.input.length := by
    have hlt := (List.getElem?_eq_some_iff.mp hq).1
    rw [h.input, List.length_cons]
    omega
  have hlex : consume_lexeme '"' source =
      .ok (.tokens (spanned .string source.pos (source.consume_times (n + 2)).pos) none,
        source.consume_times (n + 2)) := by
    rw [consume_lexeme_string, consume_string_literal_closed h.input hn ha]
    rfl
  refine ⟨source.consume_times (n + 2), h.reached.round h.next hlex rfl,
    InputSource.offset_consume_times hle, ?_, h.reached.reads.section_eq hle, he⟩
  rw [h.input, List.take_succ_cons, List.take_add_one, hq]
  rfl

-- Only a string makes for an error about an unterminated string.
theorem tokenize_unterminated
    (h : tokenize whole = .error (.parseError "encountered unterminated string literal")) :
    ∃ pass target source text, StartsString whole pass target source text ∧ ∀ n, ¬ClosesAt text n := by
  have hother (message : String) (hm : OutsideStrings message) :
      Failure.parseError message ≠ .parseError "encountered unterminated string literal" := by
    intro he
    rw [Failure.parseError.inj he] at hm
    exact absurd hm (by decide)
  have hrounds : tokenize_rounds (whole.length + 1) ⟨[], 0⟩ ⟨[], [module_range]⟩ (.new whole) =
      .error (.parseError "encountered unterminated string literal") := by
    cases hr : tokenize_rounds (whole.length + 1) ⟨[], 0⟩ ⟨[], [module_range]⟩ (.new whole) with
    | error e =>
      rw [tokenize, hr] at h
      cases h
      rfl
    | ok state =>
      obtain ⟨pass, target, source⟩ := state
      rw [tokenize, hr] at h
      have hreached := (Reaches.start.of_tokenize_rounds hr).1
      refine absurd rfl (finish_fails (p := (· ≠ .parseError "encountered unterminated string literal"))
        (by decide) (by decide) (by decide) (fun message hm => ?_) _ h)
      rw [hreached.had_error message hm]
      decide
  obtain ⟨pass, target, source, c, hreached, hc, he⟩ := Reaches.start.of_tokenize_rounds_error (Nat.lt_succ_self _) hrounds
  obtain ⟨text, hi⟩ := input_of_next hc
  cases he with
  | inr he =>
    obtain ⟨lexeme, source', _, hv⟩ := he
    exact absurd rfl (visit_lexeme_fails (p := (· ≠ .parseError "encountered unterminated string literal"))
      (by decide) (by decide) lexeme _ hv)
  | inl he =>
    have hquote : c = '"' ∧ consume_string_literal source =
        .error (.parseError "encountered unterminated string literal") := by
      by_contra hno
      refine absurd rfl (consume_lexeme_fails (p := (· ≠ .parseError "encountered unterminated string literal"))
        hother (fun hc => ?_) _ he)
      rintro _ he rfl
      exact hno ⟨hc, he⟩
    obtain ⟨rfl, hstring⟩ := hquote
    refine ⟨pass, target, source, text, ⟨hreached, hi⟩, ?_⟩
    cases stringText text with
    | closed n hn ha => cases (consume_string_literal_closed hi hn ha).symm.trans hstring
    | unclosed hn _ => exact hn
    | non_ascii skipped rest c ht ha hu hc =>
      subst ht
      have herror := (consume_string_literal_non_ascii hi ha hu hc).symm.trans hstring
      exact absurd (Failure.parseError.inj (Except.error.inj herror)) (by decide)

end

theorem string_boundaries (whole : List Char) : StringBoundaries whole where
  closed _ _ _ _ _ h hn ha := h.closed hn ha
  non_ascii _ _ _ _ _ _ h ha hu hc := h.error (consume_string_literal_non_ascii h.input ha hu hc)
  unclosed _ _ _ text h hn ha hne hlast := by
    refine h.error ?_
    rw [consume_string_literal_unclosed h.input hn ha, if_neg]
    cases hl : text.getLast? with
    | none   => exact absurd (List.getLast?_eq_none_iff.mp hl) hne
    | some c => exact fun hc => hlast (hl.trans (congrArg some hc))
  unterminated := tokenize_unterminated

-- In the file `"é` there is no quotation mark that ends the string, but the error is another one.
theorem string_not_unterminated :
    ¬(tokenize ['"', 'é'] = .error (.parseError "encountered unterminated string literal") ↔
      ∃ pass target source text, StartsString ['"', 'é'] pass target source text ∧ ∀ n, ¬ClosesAt text n) := by
  intro h
  have hstarts : StartsString ['"', 'é'] ⟨[], 0⟩ ⟨[], [module_range]⟩ (.new ['"', 'é']) ['é'] := ⟨.start, rfl⟩
  have hnone (n : Nat) : ¬ClosesAt ['é'] n := by
    intro hc
    cases n with
    | zero   => cases hc.quote
    | succ n => cases hc.quote
  have herror := h.mpr ⟨_, _, _, _, hstarts, hnone⟩
  exact absurd herror (by decide)

end PassTokenizer

end Reowolf.Parser
