import Reowolf.Parser.TokenizerRuns

namespace Reowolf.Parser

namespace PassTokenizer

def new : PassTokenizer := ⟨[], 0⟩

-- The main loop, with what is in the pass where an error ends it.
def feed_rounds : (fuel : Nat) → PassTokenizer → TokenBuffer → InputSource →
    Except Failure (TokenBuffer × InputSource) × PassTokenizer
  | 0, pass, _, _ => (.error .fuel, pass)
  | fuel + 1, pass, target, source =>
    match source.next with
    | none => (.ok (target, source), pass)
    | some c =>
      match consume_lexeme c source with
      | .error e => (.error e, pass)
      | .ok (lexeme, source) =>
        match pass.visit_lexeme target lexeme with
        | .error e           => (.error e, pass)
        | .ok (pass, target) => feed_rounds fuel pass target source

-- The brace that is reported at the end of a file is taken off the stack.
def feed_finish (pass : PassTokenizer) (target : TokenBuffer) (source : InputSource) :
    Except Failure TokenBuffer × PassTokenizer :=
  match pass.finish target source with
  | .error e   =>
    (.error e, if source.had_error.isSome then pass else { pass with curly_stack := pass.curly_stack.tail })
  | .ok buffer => (.ok buffer, new)

-- `tokenize`, with what it leaves behind in the pass. Of what it finds there it resets the range that it
-- is in, and nothing else.
def tokenize_next (pass : PassTokenizer) (input : List Char) : Except Failure TokenBuffer × PassTokenizer :=
  match feed_rounds (input.length + 1) { pass with stack_idx := 0 } ⟨[], [module_range]⟩ (.new input) with
  | (.error e, pass)             => (.error e, pass)
  | (.ok (target, source), pass) => pass.feed_finish target source

end PassTokenizer

-- The tokenizer of a parser, and the modules that it has been fed with.
structure FedParser where
  pass_tokenizer : PassTokenizer
  modules        : List (List Char × TokenBuffer)

namespace FedParser

def new : FedParser := ⟨.new, []⟩

def feed (parser : FedParser) (source : List Char) : Except Failure Unit × FedParser :=
  match parser.pass_tokenizer.tokenize_next source with
  | (.error e, pass)   => (.error e, { parser with pass_tokenizer := pass })
  | (.ok tokens, pass) => (.ok (), ⟨pass, parser.modules ++ [(source, tokens)]⟩)

def after (parser : FedParser) (sources : List (List Char)) : FedParser :=
  sources.foldl (fun parser source => (parser.feed source).2) parser

-- What is seen of a parser: the result of each tokenization, and the modules in the end.
def tokenized : FedParser → List (List Char) → List (Except Failure TokenBuffer)
  | _, [] => []
  | parser, source :: sources =>
    (parser.pass_tokenizer.tokenize_next source).1 :: tokenized (parser.feed source).2 sources

structure SameBehaviour (parser parser' : FedParser) : Prop where
  tokenized : ∀ sources, parser.tokenized sources = parser'.tokenized sources
  modules   : ∀ sources, (parser.after sources).modules = (parser'.after sources).modules

-- Feeding does not depend on what a parser was fed with before.
structure HistoryIndependent (sources : List (List Char)) : Prop where
  fresh    : ∀ before source, before ++ [source] <+: sources →
    ((new.after before).pass_tokenizer.tokenize_next source).1 = PassTokenizer.tokenize source
  rejected : ∀ before source, before ++ [source] <+: sources → (∃ e, ((new.after before).feed source).1 = .error e) →
    SameBehaviour (new.after (before ++ [source])) (new.after before)

end FedParser

namespace PassTokenizer

def Lexeme.kind : Lexeme → Option TokenKind
  | .punctuation token => some token.kind
  | _                  => none

-- The number of curly braces that have been opened and not been closed again where the tokenizer stops.
-- One of them does not count if it is what the tokenizer stops for, at the end of the file.
def braces_left : (fuel depth : Nat) → InputSource → Nat
  | 0, depth, _ => depth
  | fuel + 1, depth, source =>
    match source.next with
    | none => if source.had_error.isSome then depth else depth - 1
    | some c =>
      match consume_lexeme c source with
      | .error _ => depth
      | .ok (lexeme, source) =>
        if lexeme.kind = some .openCurly then braces_left fuel (depth + 1) source
        else if lexeme.kind = some .closeCurly then
          if depth = 0 then 0 else braces_left fuel (depth - 1) source
        else braces_left fuel depth source

def unclosed_braces (input : List Char) : Nat := braces_left (input.length + 1) 0 (.new input)

variable {pass pass' : PassTokenizer} {target target' buffer : TokenBuffer} {source source' : InputSource}
variable {ranges ranges' : List TokenRange} {fuel : Nat} {e : Failure} {lexeme : Lexeme}

theorem push_range_curly_stack {range_kind : TokenRangeKind} {idx : Nat}
    (h : pass.push_range ranges range_kind idx = .ok (pass', ranges')) : pass'.curly_stack = pass.curly_stack := by
  obtain ⟨range, _, h⟩ := Except.bind_eq_ok.mp h
  simp only [] at h
  split at h
  case isTrue =>
    obtain ⟨_, _, h⟩ := Except.bind_eq_ok.mp h
    cases h
    rfl
  case isFalse =>
    cases h
    rfl

theorem pop_range_if_curly_stack {p : TokenRange → Bool} {idx : Nat}
    (h : pop_range_if p pass ranges idx = .ok (pass', ranges')) : pass'.curly_stack = pass.curly_stack := by
  obtain ⟨range, _, h⟩ := Except.bind_eq_ok.mp h
  split at h
  case isFalse =>
    cases h
    rfl
  case isTrue =>
    obtain ⟨popped, _, h⟩ := Except.bind_eq_ok.mp h
    simp only [] at h
    split at h
    case h_1 => cases h
    case h_2 =>
      obtain ⟨_, _, h⟩ := Except.bind_eq_ok.mp h
      obtain ⟨_, _, h⟩ := Except.bind_eq_ok.mp h
      cases h
      rfl

-- How a lexeme changes the number of open braces.
theorem visit_lexeme_curly_stack (h : pass.visit_lexeme target lexeme = .ok (pass', target')) :
    (lexeme.kind = some .openCurly → pass'.curly_stack.length = pass.curly_stack.length + 1) ∧
      (lexeme.kind = some .closeCurly → pass.curly_stack.length = pass'.curly_stack.length + 1) ∧
      (lexeme.kind ≠ some .openCurly → lexeme.kind ≠ some .closeCurly → pass'.curly_stack = pass.curly_stack) := by
  cases lexeme with
  | tokens tokens opens =>
    refine ⟨fun hk => (by cases hk), fun hk => (by cases hk), fun _ _ => ?_⟩
    cases opens with
    | none =>
      cases h
      rfl
    | some range_kind =>
      obtain ⟨⟨pass₁, ranges₁⟩, hp, h⟩ := Except.bind_eq_ok.mp h
      cases h
      exact push_range_curly_stack hp
  | whitespace contained_newline =>
    refine ⟨fun hk => (by cases hk), fun hk => (by cases hk), fun _ _ => ?_⟩
    cases contained_newline with
    | false =>
      cases h
      rfl
    | true =>
      obtain ⟨⟨pass₁, ranges₁⟩, hp, h⟩ := Except.bind_eq_ok.mp h
      cases h
      exact pop_range_if_curly_stack hp
  | punctuation token =>
    simp only [Lexeme.kind, Option.some.injEq, ne_eq]
    simp only [visit_lexeme] at h
    split at h
    case h_1 hk =>
      cases h
      rw [hk]
      exact ⟨fun _ => rfl, fun hc => (by cases hc), fun ho => absurd rfl ho⟩
    case h_2 hk =>
      rw [hk]
      refine ⟨fun hc => (by cases hc), fun _ => ?_, fun _ ho => absurd rfl ho⟩
      split at h
      case h_1 => cases h
      case h_2 brace curly_stack hs =>
        obtain ⟨⟨pass₁, ranges₁⟩, hp, h⟩ := Except.bind_eq_ok.mp h
        cases h
        rw [hs, pop_range_if_curly_stack hp]
        rfl
    case h_3 hk =>
      rw [hk]
      refine ⟨fun hc => (by cases hc), fun hc => (by cases hc), fun _ _ => ?_⟩
      obtain ⟨⟨pass₁, ranges₁⟩, hp, h⟩ := Except.bind_eq_ok.mp h
      cases h
      exact pop_range_if_curly_stack hp
    case h_4 ho hc _ =>
      cases h
      exact ⟨fun hk => absurd hk ho, fun hk => absurd hk hc, fun _ _ => rfl⟩

-- The only error of a lexeme that is not about a range.
theorem visit_lexeme_error (hp : e ≠ .panic) (h : pass.visit_lexeme target lexeme = .error e) :
    lexeme.kind = some .closeCurly ∧ pass.curly_stack = [] := by
  have hpanic : (.panic : Failure) = .panic := rfl
  cases lexeme with
  | tokens tokens opens =>
    cases opens with
    | none   => cases h
    | some _ => exact absurd (((push_range_fails hpanic _ _).bind fun _ => .ok _) e h) hp.symm
  | whitespace contained_newline =>
    cases contained_newline with
    | false => cases h
    | true  => exact absurd (((pop_range_if_fails hpanic _ _).bind fun _ => .ok _) e h) hp.symm
  | punctuation token =>
    simp only [visit_lexeme] at h
    split at h
    case h_1 => cases h
    case h_2 hk =>
      split at h
      case h_1 hs => exact ⟨congrArg some hk, hs⟩
      case h_2 => exact absurd (((pop_range_if_fails hpanic _ _).bind fun _ => .ok _) e h) hp.symm
    case h_3 => exact absurd (((pop_range_if_fails hpanic _ _).bind fun _ => .ok _) e h) hp.symm
    case h_4 => cases h

theorem finish_ok (h : pass.finish target source = .ok buffer) :
    source.had_error = none ∧ pass.curly_stack = [] := by
  rw [finish] at h
  cases he : source.had_error with
  | some message =>
    rw [he] at h
    cases h
  | none =>
    rw [he] at h
    refine ⟨rfl, List.isEmpty_iff.mp ?_⟩
    by_contra hs
    rw [Bool.not_eq_true] at hs
    cases (if_pos (by rw [hs]; rfl)).symm.trans h

theorem feed_finish_curly_stack (pass : PassTokenizer) (target : TokenBuffer) (source : InputSource) :
    (pass.feed_finish target source).2.curly_stack.length =
      if source.had_error.isSome then pass.curly_stack.length else pass.curly_stack.length - 1 := by
  rw [feed_finish]
  cases hf : pass.finish target source with
  | ok buffer =>
    obtain ⟨he, hs⟩ := finish_ok hf
    rw [he, hs]
    rfl
  | error e =>
    by_cases he : source.had_error.isSome = true
    case pos =>
      rw [if_pos he]
      simp only [he, if_true]
    case neg =>
      rw [if_neg he]
      simp only [he, Bool.false_eq_true, if_false, List.length_tail]

-- The loops agree on everything but what is left where an error ends them.
theorem feed_rounds_eq (fuel : Nat) (pass : PassTokenizer) (target : TokenBuffer) (source : InputSource) :
    (∀ pass' target' source', tokenize_rounds fuel pass target source = .ok (pass', target', source') →
      feed_rounds fuel pass target source = (.ok (target', source'), pass')) ∧
    ∀ e, tokenize_rounds fuel pass target source = .error e → (feed_rounds fuel pass target source).1 = .error e := by
  induction fuel generalizing pass target source with
  | zero =>
    refine ⟨fun _ _ _ h => (by cases h), fun e h => ?_⟩
    cases h
    rfl
  | succ fuel ih =>
    cases hc : source.next with
    | none =>
      simp only [tokenize_rounds, feed_rounds, hc]
      refine ⟨fun _ _ _ h => ?_, fun e h => (by cases h)⟩
      cases h
      rfl
    | some c =>
      rw [tokenize_rounds_succ hc]
      simp only [feed_rounds, hc]
      cases hl : consume_lexeme c source with
      | error e' =>
        refine ⟨fun _ _ _ h => (by cases h), fun e h => ?_⟩
        cases h
        rfl
      | ok lexed =>
        obtain ⟨lexeme, source₁⟩ := lexed
        simp only [Except.ok_bind]
        cases hv : pass.visit_lexeme target lexeme with
        | error e' =>
          refine ⟨fun _ _ _ h => (by cases h), fun e h => ?_⟩
          cases h
          rfl
        | ok visited => exact ih _ _ _

theorem tokenize_next_eq (stack_idx : Nat) (input : List Char) :
    ((⟨[], stack_idx⟩ : PassTokenizer).tokenize_next input).1 = tokenize input := by
  obtain ⟨hok, herror⟩ := feed_rounds_eq (input.length + 1) ⟨[], 0⟩ ⟨[], [module_range]⟩ (.new input)
  rw [tokenize_next, tokenize]
  cases hr : tokenize_rounds (input.length + 1) ⟨[], 0⟩ ⟨[], [module_range]⟩ (.new input) with
  | ok state =>
    obtain ⟨pass, target, source⟩ := state
    simp only [hok _ _ _ hr, Except.ok_bind, feed_finish]
    cases pass.finish target source <;> rfl
  | error e =>
    obtain ⟨pass, hfeed⟩ : ∃ pass, feed_rounds (input.length + 1) ⟨[], 0⟩ ⟨[], [module_range]⟩ (.new input) =
        (.error e, pass) := ⟨_, Prod.ext (herror e hr) rfl⟩
    simp only [hfeed]
    rfl

-- The braces are left on the stack.
theorem feed_rounds_curly_stack (target : TokenBuffer) {path : List Nat} {children : Nat → List Nat}
    (h : Ranged pass target.ranges target.tokens.length path children) (hf : source.input.length < fuel) :
    (∀ e pass', feed_rounds fuel pass target source = (.error e, pass') →
      pass'.curly_stack.length = braces_left fuel pass.curly_stack.length source) ∧
    ∀ target' source' pass', feed_rounds fuel pass target source = (.ok (target', source'), pass') →
      (if source'.had_error.isSome then pass'.curly_stack.length else pass'.curly_stack.length - 1) =
        braces_left fuel pass.curly_stack.length source := by
  induction fuel generalizing pass target path children source with
  | zero => exact absurd hf (Nat.not_lt_zero _)
  | succ fuel ih =>
    cases hc : source.next with
    | none =>
      simp only [feed_rounds, braces_left, hc]
      refine ⟨fun _ _ he => (by cases he), fun _ _ _ he => ?_⟩
      cases he
      rfl
    | some c =>
      simp only [feed_rounds, braces_left, hc]
      cases hl : consume_lexeme c source with
      | error e' =>
        refine ⟨fun _ _ he => ?_, fun _ _ _ he => (by cases he)⟩
        cases he
        rfl
      | ok lexed =>
        obtain ⟨lexeme, source₁⟩ := lexed
        have hproper := (consume_lexeme_ok hc hl).1
        obtain ⟨n, hn, _⟩ := consume_lexeme_scans hc hl
        have hlt : source₁.input.length < fuel := Nat.lt_of_lt_of_le hn.length_lt (Nat.lt_succ_iff.mp hf)
        simp only []
        cases hv : pass.visit_lexeme target lexeme with
        | error e' =>
          obtain ⟨message, rfl⟩ := h.visit_lexeme_reports hproper e' hv
          obtain ⟨hk, hs⟩ := visit_lexeme_error (fun he => by cases he) hv
          refine ⟨fun _ _ he => ?_, fun _ _ _ he => (by cases he)⟩
          cases he
          simp [hk, hs]
        | ok visited =>
          obtain ⟨pass₁, target₁⟩ := visited
          obtain ⟨path₁, children₁, h₁, _⟩ := h.visit_lexeme hproper hv
          obtain ⟨hopen, hclose, hother⟩ := visit_lexeme_curly_stack hv
          have hnext : braces_left fuel pass₁.curly_stack.length source₁ =
              if lexeme.kind = some .openCurly then braces_left fuel (pass.curly_stack.length + 1) source₁
              else if lexeme.kind = some .closeCurly then
                if pass.curly_stack.length = 0 then 0 else braces_left fuel (pass.curly_stack.length - 1) source₁
              else braces_left fuel pass.curly_stack.length source₁ := by
            by_cases ho : lexeme.kind = some .openCurly
            case pos => rw [if_pos ho, hopen ho]
            case neg =>
              rw [if_neg ho]
              by_cases hcl : lexeme.kind = some .closeCurly
              case pos =>
                rw [if_pos hcl, hclose hcl, if_neg (Nat.succ_ne_zero _), Nat.add_sub_cancel]
              case neg => rw [if_neg hcl, hother ho hcl]
          rw [← hnext]
          exact ih _ h₁ hlt

theorem tokenize_next_curly_stack (stack_idx : Nat) (input : List Char) :
    ((⟨[], stack_idx⟩ : PassTokenizer).tokenize_next input).2.curly_stack.length = unclosed_braces input := by
  have h₀ : Ranged ⟨[], 0⟩ [module_range] 0 [0] fun _ => [] := .start
  obtain ⟨herror, hok⟩ := feed_rounds_curly_stack ⟨[], [module_range]⟩ h₀
    (Nat.lt_succ_self (InputSource.new input).input.length)
  rw [tokenize_next, unclosed_braces]
  cases hr : feed_rounds (input.length + 1) ⟨[], 0⟩ ⟨[], [module_range]⟩ (.new input) with
  | mk result pass =>
    cases result with
    | error e => exact herror e pass hr
    | ok state =>
      obtain ⟨target, source⟩ := state
      exact (feed_finish_curly_stack pass target source).trans (hok target source pass hr)

end PassTokenizer

namespace FedParser

variable {parser parser' : FedParser} {source : List Char}

theorem tokenize_next_fresh (h : parser.pass_tokenizer.curly_stack = []) (source : List Char) :
    (parser.pass_tokenizer.tokenize_next source).1 = PassTokenizer.tokenize source ∧
      (parser.pass_tokenizer.tokenize_next source).2.curly_stack.length = PassTokenizer.unclosed_braces source := by
  obtain ⟨⟨curly_stack, stack_idx⟩, modules⟩ := parser
  cases h
  exact ⟨PassTokenizer.tokenize_next_eq stack_idx source, PassTokenizer.tokenize_next_curly_stack stack_idx source⟩

theorem feed_pass (parser : FedParser) (source : List Char) :
    (parser.feed source).2.pass_tokenizer = (parser.pass_tokenizer.tokenize_next source).2 := by
  rw [feed]
  cases parser.pass_tokenizer.tokenize_next source with
  | mk result pass => cases result <;> rfl

theorem feed_rejected {e : Failure} (h : (parser.feed source).1 = .error e) :
    (parser.feed source).2.modules = parser.modules := by
  rw [feed] at *
  cases hr : parser.pass_tokenizer.tokenize_next source with
  | mk result pass =>
    rw [hr] at h
    cases result with
    | error e   => rfl
    | ok tokens => cases h

-- A source that is accepted leaves nothing behind.
theorem feed_accepted {u : Unit} (h : (parser.feed source).1 = .ok u) :
    (parser.feed source).2.pass_tokenizer.curly_stack = [] := by
  rw [feed_pass]
  rw [feed, PassTokenizer.tokenize_next] at h
  rw [PassTokenizer.tokenize_next]
  cases hr : PassTokenizer.feed_rounds (source.length + 1) { parser.pass_tokenizer with stack_idx := 0 }
      ⟨[], [PassTokenizer.module_range]⟩ (.new source) with
  | mk result pass =>
    rw [hr] at h
    cases result with
    | error e  => cases h
    | ok state =>
      obtain ⟨target, source⟩ := state
      simp only [PassTokenizer.feed_finish] at h ⊢
      cases hf : pass.finish target source with
      | error e =>
        rw [hf] at h
        cases h
      | ok buffer => rfl

theorem after_concat (parser : FedParser) (before : List (List Char)) (source : List Char) :
    parser.after (before ++ [source]) = ((parser.after before).feed source).2 := by
  rw [after, List.foldl_append]
  rfl

-- What is seen of a parser depends on the open braces and the modules.
theorem sameBehaviour (hs : parser.pass_tokenizer.curly_stack = parser'.pass_tokenizer.curly_stack)
    (hm : parser.modules = parser'.modules) : SameBehaviour parser parser' := by
  obtain ⟨⟨curly_stack, stack_idx⟩, modules⟩ := parser
  obtain ⟨⟨curly_stack', stack_idx'⟩, modules'⟩ := parser'
  cases hs
  cases hm
  constructor
  case tokenized =>
    intro sources
    cases sources <;> rfl
  case modules =>
    intro sources
    cases sources <;> rfl

theorem curly_stack_after {sources : List (List Char)}
    (h : ∀ source ∈ sources, PassTokenizer.unclosed_braces source = 0) :
    (new.after sources).pass_tokenizer.curly_stack = [] := by
  induction sources using List.reverseRecOn with
  | nil => rfl
  | append_singleton before source ih =>
    have hs := ih fun other hm => h other (List.mem_append_left _ hm)
    have hz := h source (List.mem_append_right _ List.mem_cons_self)
    rw [after_concat, feed_pass]
    exact List.length_eq_zero_iff.mp ((tokenize_next_fresh hs source).2.trans hz)

-- An open brace makes the tokenizer refuse an empty file.
theorem empty_refused (h : parser.pass_tokenizer.curly_stack ≠ []) :
    ∃ e, (parser.pass_tokenizer.tokenize_next []).1 = .error e := by
  obtain ⟨⟨curly_stack, stack_idx⟩, modules⟩ := parser
  cases curly_stack with
  | nil => exact absurd rfl h
  | cons => exact ⟨_, rfl⟩

-- Feeding is independent of what came before if no source stops with open braces.
theorem history_independent_iff (sources : List (List Char)) :
    HistoryIndependent sources ↔ ∀ source ∈ sources, PassTokenizer.unclosed_braces source = 0 := by
  constructor
  case mp =>
    intro h
    have hbefore (before : List (List Char)) (hp : before <+: sources) :
        ∀ source ∈ before, PassTokenizer.unclosed_braces source = 0 := by
      induction before using List.reverseRecOn with
      | nil => exact fun _ hm => (by cases hm)
      | append_singleton before source ih =>
        have hclean := ih ((List.prefix_append _ _).trans hp)
        have hs := curly_stack_after hclean
        have hleft := (tokenize_next_fresh hs source).2
        intro other hm
        obtain hm | hm := List.mem_append.mp hm
        · exact hclean other hm
        · rw [List.mem_singleton.mp hm, ← hleft, List.length_eq_zero_iff, ← feed_pass]
          by_contra hne
          -- The source has been rejected, and with its braces an empty file would be.
          cases hf : ((new.after before).feed source).1 with
          | ok u => exact hne (feed_accepted hf)
          | error e =>
            have hsame := (h.rejected before source hp ⟨e, hf⟩).tokenized [[]]
            rw [after_concat] at hsame
            obtain ⟨e', he⟩ := empty_refused hne
            have hfirst := (List.cons.inj hsame).1
            rw [he, (tokenize_next_fresh hs []).1] at hfirst
            cases hfirst
    exact hbefore sources List.prefix_rfl
  case mpr =>
    intro h
    have hclean {before : List (List Char)} {source : List Char} (hp : before ++ [source] <+: sources) :
        (new.after before).pass_tokenizer.curly_stack = [] ∧
          (new.after (before ++ [source])).pass_tokenizer.curly_stack = [] := by
      have hall : ∀ other ∈ before ++ [source], PassTokenizer.unclosed_braces other = 0 :=
        fun other hm => h other (hp.subset hm)
      exact ⟨curly_stack_after fun other hm => hall other (List.mem_append_left _ hm), curly_stack_after hall⟩
    constructor
    case fresh => exact fun before source hp => (tokenize_next_fresh (hclean hp).1 source).1
    case rejected =>
      rintro before source hp ⟨e, he⟩
      obtain ⟨hs, hs'⟩ := hclean hp
      refine sameBehaviour (hs'.trans hs.symm) ?_
      rw [after_concat]
      exact feed_rejected he

-- Behind the source `\x7b\x7b`, which is rejected, an empty file is rejected as well.
theorem history_dependent :
    ((new.after [['\x7b', '\x7b']]).pass_tokenizer.tokenize_next []).1 =
        .error (.parseError "unmatched opening curly brace '\x7b'") ∧
      (∃ buffer, PassTokenizer.tokenize [] = .ok buffer) ∧ ¬HistoryIndependent [['\x7b', '\x7b'], []] := by
  refine ⟨rfl, ⟨_, rfl⟩, fun h => ?_⟩
  have hfresh := h.fresh [['\x7b', '\x7b']] [] List.prefix_rfl
  cases hfresh

end FedParser

end Reowolf.Parser
