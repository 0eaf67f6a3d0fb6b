import Reowolf.Parser.RangeTree
import Reowolf.Parser.LexemeSpec
import Mathlib.Data.List.Perm.Subperm

namespace Reowolf.Parser

open SiblingTree

namespace PassTokenizer

def Lexeme.opens : Lexeme → Option TokenRangeKind
  | .tokens _ opens => opens
  | _ => none

-- Some lexeme of what is left of a source opens a range, before one that is no lexeme at all.
inductive Opens : InputSource → Prop
  | here {source c lexeme source'} :
    source.next = some c → consume_lexeme c source = .ok (lexeme, source') →
    lexeme.opens ≠ none → Opens source
  | later {source c lexeme source'} :
    source.next = some c → consume_lexeme c source = .ok (lexeme, source') → Opens source' →
    Opens source

theorem Opens.of_consume_lexeme {source source' : InputSource} {c : Char} {lexeme : Lexeme}
    (h : Opens source) (hn : source.next = some c)
    (hc : consume_lexeme c source = .ok (lexeme, source')) : lexeme.opens ≠ none ∨ Opens source' := by
  match h with
  | .here hn' hc' ho =>
    cases hn.symm.trans hn'
    cases hc.symm.trans hc'
    exact .inl ho
  | .later hn' hc' ho =>
    cases hn.symm.trans hn'
    cases hc.symm.trans hc'
    exact .inr ho

section

variable {pass pass' : PassTokenizer} {ranges ranges' : List TokenRange} {num_tokens : Nat}
  {path : List Nat} {children : Nat → List Nat}

-- A range that is not the module's has a parent that is open as well.
theorem Ranged.path_of_kind (h : Ranged pass ranges num_tokens path children) {range : TokenRange}
    (hr : get_range ranges pass.stack_idx = .ok range) (hk : range.range_kind ≠ .module) :
    ∃ parent tail, path = pass.stack_idx :: parent :: tail := by
  obtain ⟨tail, he⟩ := h.path_cons
  match tail with
  | parent :: tail => exact ⟨parent, tail, he⟩
  | [] =>
    have hroot := h.building.root
    rw [he] at hroot
    have hroot : pass.stack_idx = 0 := Option.some.inj hroot
    have hm := h.module
    rw [hroot, get_range_eq_ok] at hr
    rw [hr] at hm
    exact absurd (Option.some.inj hm) hk

-- The ranges that are open come with the braces that are.
theorem Ranged.with_curly_stack (h : Ranged pass ranges num_tokens path children)
    (curly_stack : List InputPosition) :
    Ranged { pass with curly_stack := curly_stack } ranges num_tokens path children :=
  ⟨h.building, h.top, h.started, h.module⟩

theorem Ranged.pop_range_if {p : TokenRange → Bool}
    (hp : ∀ range, p range = true → range.range_kind ≠ .module)
    (h : Ranged pass ranges num_tokens path children)
    (he : pop_range_if p pass ranges num_tokens = .ok (pass', ranges')) :
    ∃ path' children', Ranged pass' ranges' num_tokens path' children' ∧
      ranges'.length = ranges.length := by
  obtain ⟨range, hr, he⟩ := Except.bind_eq_ok.mp he
  split at he
  case isTrue hpr =>
    obtain ⟨parent, tail, hpath⟩ := h.path_of_kind hr (hp range hpr)
    subst hpath
    obtain ⟨_, hpop, h', hlen⟩ := h.pop_range
    cases hpop.symm.trans he
    exact ⟨_, _, h', hlen⟩
  case isFalse =>
    cases he
    exact ⟨path, children, h, rfl⟩

end

section

variable {pass pass' : PassTokenizer} {target target' : TokenBuffer} {path : List Nat}
  {children : Nat → List Nat} {source source' : InputSource}

-- One lexeme keeps the ranges a tree, and there are more of them if it opens one.
theorem Ranged.visit_lexeme (h : Ranged pass target.ranges target.tokens.length path children)
    {lexeme : Lexeme} (hl : lexeme.Proper)
    (he : visit_lexeme pass target lexeme = .ok (pass', target')) :
    ∃ path' children', Ranged pass' target'.ranges target'.tokens.length path' children' ∧
      target.ranges.length ≤ target'.ranges.length ∧
      (lexeme.opens ≠ none → target.ranges.length < target'.ranges.length) := by
  cases lexeme
  case tokens tokens opens =>
    have hlen : target.tokens.length < (target.tokens ++ tokens).length := by
      have := List.length_pos_iff.mpr hl
      rw [List.length_append]
      omega
    cases opens
    case none =>
      cases he
      exact ⟨path, children, h.mono (Nat.le_of_lt hlen), Nat.le_refl _, fun ho => absurd rfl ho⟩
    case some range_kind =>
      obtain ⟨⟨pass₁, ranges₁⟩, hpush, he⟩ := Except.bind_eq_ok.mp he
      cases he
      obtain ⟨tail, hpath⟩ := h.path_cons
      subst hpath
      obtain ⟨_, _, path', children', hok, h', _, hlt⟩ := h.push_range range_kind hlen
      cases hok.symm.trans hpush
      exact ⟨path', children', h', Nat.le_of_lt hlt, fun _ => hlt⟩
  case whitespace contained_newline =>
    cases contained_newline
    case true =>
      obtain ⟨⟨pass₁, ranges₁⟩, hpop, he⟩ := Except.bind_eq_ok.mp he
      cases he
      obtain ⟨path', children', h', hlen⟩ := h.pop_range_if (fun range hk => by simp_all) hpop
      exact ⟨path', children', h', Nat.le_of_eq hlen.symm, fun ho => absurd rfl ho⟩
    case false =>
      cases he
      exact ⟨path, children, h, Nat.le_refl _, fun ho => absurd rfl ho⟩
  case punctuation token =>
    have h₁ : Ranged pass target.ranges (target.tokens ++ [token]).length path children :=
      h.mono (by simp)
    simp only [PassTokenizer.visit_lexeme] at he
    split at he
    case h_1 =>
      cases he
      exact ⟨path, children, h₁.with_curly_stack _, Nat.le_refl _, fun ho => absurd rfl ho⟩
    case h_2 =>
      split at he
      case h_1 => cases he
      case h_2 curly_stack hc =>
        obtain ⟨⟨pass₁, ranges₁⟩, hpop, he⟩ := Except.bind_eq_ok.mp he
        cases he
        obtain ⟨path', children', h', hlen⟩ :=
          (h₁.with_curly_stack curly_stack).pop_range_if (fun range hk => by simp_all) hpop
        exact ⟨path', children', h', Nat.le_of_eq hlen.symm, fun ho => absurd rfl ho⟩
    case h_3 =>
      obtain ⟨⟨pass₁, ranges₁⟩, hpop, he⟩ := Except.bind_eq_ok.mp he
      cases he
      obtain ⟨path', children', h', hlen⟩ := h₁.pop_range_if (fun range hk => by simp_all) hpop
      exact ⟨path', children', h', Nat.le_of_eq hlen.symm, fun ho => absurd rfl ho⟩
    case h_4 =>
      cases he
      exact ⟨path, children, h₁, Nat.le_refl _, fun ho => absurd rfl ho⟩

-- The rounds of the main loop keep the ranges a tree.
theorem Ranged.tokenize_rounds (fuel : Nat)
    (h : Ranged pass target.ranges target.tokens.length path children)
    (he : tokenize_rounds fuel pass target source = .ok (pass', target', source')) :
    ∃ path' children', Ranged pass' target'.ranges target'.tokens.length path' children' ∧
      target.ranges.length ≤ target'.ranges.length ∧
      (Opens source → target.ranges.length < target'.ranges.length) := by
  induction fuel generalizing pass target path children source
  case zero => cases he
  case succ fuel ih =>
    simp only [PassTokenizer.tokenize_rounds] at he
    split at he
    case h_1 hn =>
      cases he
      refine ⟨path, children, h, Nat.le_refl _, fun ho => ?_⟩
      match ho with
      | .here hn' .. | .later hn' .. => cases hn.symm.trans hn'
    case h_2 c hn =>
      obtain ⟨⟨lexeme, source₁⟩, hc, he⟩ := Except.bind_eq_ok.mp he
      obtain ⟨⟨pass₁, target₁⟩, hv, he⟩ := Except.bind_eq_ok.mp he
      obtain ⟨_, _, h₁, hle, hlt⟩ := h.visit_lexeme (consume_lexeme_ok hn hc).1 hv
      obtain ⟨path', children', h', hle', hlt'⟩ := ih h₁ he
      refine ⟨path', children', h', Nat.le_trans hle hle', fun ho => ?_⟩
      match ho.of_consume_lexeme hn hc with
      | .inl ho => exact Nat.lt_of_lt_of_le (hlt ho) hle'
      | .inr ho => exact Nat.lt_of_le_of_lt hle (hlt' ho)

-- A range that is open is opened after its parent, so there are at most as many as there are ranges.
theorem Ranged.path_length {ranges : List TokenRange} {num_tokens : Nat}
    (h : Ranged pass ranges num_tokens path children) : path.length ≤ ranges.length := by
  have hn : path.Nodup := h.building.decreasing.pairwise.imp fun h => Nat.ne_of_gt h
  have hs := List.Nodup.subperm hn fun i hi => List.mem_range.mpr (h.building.path_lt i hi)
  simpa using hs.length_le

-- All ranges but that of the module are closed at the end of the file.
theorem Ranged.pop_ranges {ranges : List TokenRange} {num_tokens : Nat} (fuel : Nat)
    (h : Ranged pass ranges num_tokens path children) (hf : path.length ≤ fuel) :
    ∃ ranges' children', pop_ranges fuel pass ranges num_tokens = .ok ranges' ∧
      Ranged { pass with stack_idx := 0 } ranges' num_tokens [0] children' ∧
      ranges'.length = ranges.length := by
  induction fuel generalizing pass ranges path children
  case zero =>
    obtain ⟨tail, hpath⟩ := h.path_cons
    subst hpath
    cases hf
  case succ fuel ih =>
    obtain ⟨tail, hpath⟩ := h.path_cons
    subst hpath
    simp only [PassTokenizer.pop_ranges]
    by_cases h₀ : pass.stack_idx = 0
    · have ht : tail = [] := by
        match tail, h.building.decreasing with
        | [], _ => rfl
        | parent :: tail, hd =>
          have := (List.isChain_cons_cons.mp hd).1
          omega
      subst ht
      refine ⟨ranges, children, by simp [h₀], ?_, rfl⟩
      rw [h₀] at h
      exact ⟨h.building, rfl, h.started, h.module⟩
    · obtain ⟨parent, tail', ht⟩ : ∃ parent tail', tail = parent :: tail' := by
        match tail with
        | [] => exact absurd (Option.some.inj h.building.root) h₀
        | parent :: tail' => exact ⟨parent, tail', rfl⟩
      subst ht
      obtain ⟨ranges₁, hpop, h₁, hlen⟩ := h.pop_range
      obtain ⟨ranges', children', he, h', hlen'⟩ := ih h₁ (by simpa using hf)
      refine ⟨ranges', children', ?_, h', hlen'.trans hlen⟩
      rw [if_pos h₀]
      exact Except.bind_eq_ok.mpr ⟨_, hpop, he⟩

end

-- Before the first lexeme there is the module's range.
theorem Ranged.start : Ranged ⟨[], 0⟩ [module_range] 0 [0] fun _ => [] where
  building := {
    root := rfl
    root_parent := rfl
    decreasing := List.isChain_singleton 0
    path_lt := by simp
    parents := List.isChain_singleton 0
    opened := by simp [range_nodes, module_range, childless, TokenRange.node]
    open_child := fun h => by cases h
    linked := fun i hi => by
      obtain rfl := Nat.lt_one_iff.mp hi
      constructor <;> simp [range_nodes, module_range, childless, TokenRange.node, child_on_path]
    outside := fun _ _ => rfl
    of_child := fun h => by cases h
    parent_lt := fun h => by cases h
    child := fun {k} hk hm => by
      obtain rfl := Nat.lt_one_iff.mp hk
      simp at hm }
  top := rfl
  started i hi h₀ := absurd (List.mem_singleton.mp hi) h₀
  module := rfl

-- The loop over the children visits all that are linked.
theorem visited_ranges_ok {ranges : List TokenRange} (fuel : Nat) (k : Nat) (children : List Nat)
    (hl : ∀ i ∈ k :: children, i < ranges.length)
    (hn : (k :: children).IsChain fun i i' => (range_nodes ranges i).next_sibling = some i')
    (hs : ∀ i ∈ (k :: children).getLast?, (range_nodes ranges i).next_sibling = none)
    (hf : children.length < fuel) :
    visited_ranges ranges fuel (some k) = .ok (k :: children) := by
  induction children generalizing k fuel
  case nil =>
    match fuel, hf with
    | fuel + 1, _ =>
      obtain ⟨range, hr, hnode⟩ := get_range_of_lt (hl k (by simp))
      have hnone : range.next_sibling_idx = none := by
        have := hs k rfl
        rwa [hnode] at this
      refine Except.bind_eq_ok.mpr ⟨range, hr, ?_⟩
      rw [hnone]
  case cons k' children ih =>
    match fuel, hf with
    | fuel + 1, hf =>
      obtain ⟨range, hr, hnode⟩ := get_range_of_lt (hl k (by simp))
      obtain ⟨hk, hn⟩ := List.isChain_cons_cons.mp hn
      have hsome : range.next_sibling_idx = some k' := by rwa [hnode] at hk
      have hrest := ih fuel k' (fun i hi => hl i (List.mem_cons_of_mem _ hi)) hn
        (fun i hi => hs i (by rwa [List.getLast?_cons_cons])) (Nat.lt_of_succ_lt_succ hf)
      refine Except.bind_eq_ok.mpr ⟨range, hr, ?_⟩
      rw [hsome]
      exact Except.bind_eq_ok.mpr ⟨_, hrest, rfl⟩

-- All ranges are linked, and the module has one below it.
structure Walkable (ranges : List TokenRange) : Prop where
  consistent : Consistent (range_nodes ranges) ranges.length
  visited    : ∀ tokens, visited_children ⟨tokens, ranges⟩ =
    .ok (children_of (range_nodes ranges) ranges.length 0)

theorem Walkable.of_consistent {ranges : List TokenRange}
    (h : Consistent (range_nodes ranges) ranges.length) (h₀ : 0 < ranges.length)
    (hc : children_of (range_nodes ranges) ranges.length 0 ≠ []) : Walkable ranges := by
  refine ⟨h, fun tokens => ?_⟩
  have hl := h 0 h₀
  have hlt : ∀ i ∈ children_of (range_nodes ranges) ranges.length 0, i < ranges.length :=
    fun i hi => List.mem_range.mp (List.mem_of_mem_filter hi)
  have hlen : (children_of (range_nodes ranges) ranges.length 0).length ≤ ranges.length := by
    have := List.length_filter_le (fun k => decide ((range_nodes ranges k).parent = some 0))
      (List.range ranges.length)
    rwa [List.length_range] at this
  obtain ⟨range, hr, hnode⟩ := get_range_of_lt h₀
  have hfirst := hl.first
  rw [hnode, Option.toList_none, List.append_nil] at hfirst
  unfold visited_children
  refine Except.bind_eq_ok.mpr ⟨range, hr, ?_⟩
  generalize children_of (range_nodes ranges) ranges.length 0 = children at *
  match children, hc with
  | k :: children, _ =>
    rw [show range.first_child_idx = some k from hfirst]
    refine visited_ranges_ok _ k children hlt hl.next (fun i hi => ?_) (Nat.lt_succ_of_le ?_)
    · exact (hl.stops i hi).elim id id
    · rw [List.length_cons] at hlen
      exact Nat.le_of_succ_le hlen

theorem Ranged.walkable {pass : PassTokenizer} {ranges : List TokenRange} {num_tokens : Nat}
    {children : Nat → List Nat} (h : Ranged pass ranges num_tokens [0] children)
    (hlen : 1 < ranges.length) : Walkable ranges := by
  have hb := h.building
  obtain ⟨i, hi⟩ := hb.child hlen (by simp)
  have h₀ : i = 0 := by
    have := hb.parent_lt hi
    omega
  subst h₀
  refine .of_consistent hb.consistent (by omega) fun hnil => ?_
  rw [← hb.children_eq (by omega)] at hnil
  rw [hnil] at hi
  cases hi

-- The last range of code is opened and ended below the module's.
theorem Ranged.add_code_range {pass : PassTokenizer} {ranges ranges' : List TokenRange}
    {num_tokens curly_depth : Nat} {range : TokenRange} {children : Nat → List Nat}
    (h : Ranged pass ranges num_tokens [0] children) (hlen : 1 < ranges.length)
    (hr : get_range ranges 0 = .ok range) (hne : range.end ≠ num_tokens)
    (he : add_code_range curly_depth ranges 0 range.end num_tokens none = .ok ranges') :
    ∃ children', Ranged pass ranges' num_tokens [0] children' ∧ 1 < ranges'.length := by
  have h₀ : 0 < ranges.length := by omega
  have hb := h.building
  have hnode : range_nodes ranges 0 = range.node := by
    obtain ⟨range', hr', hnode⟩ := get_range_of_lt h₀
    cases hr.symm.trans hr'
    exact hnode
  have hopened := (hb.opened 0 (by simp)).2
  rw [hnode] at hopened
  have hlt : range.end < num_tokens := Nat.lt_of_le_of_ne hopened hne
  obtain ⟨i, hi⟩ := hb.child hlen (by simp)
  have hi₀ : i = 0 := by
    have := hb.parent_lt hi
    omega
  subst hi₀
  have hfirst : (range_nodes ranges 0).first_child ≠ none := by
    rw [(hb.linked 0 h₀).first]
    intro hnil
    have hnil : (children 0).head? = none := by simpa [child_on_path] using hnil
    rw [List.head?_eq_none_iff.mp hnil] at hi
    cases hi
  obtain ⟨_, hadd, hlen', hkind, hnodes⟩ := add_code_range_ok curly_depth ranges range.end num_tokens
    none h₀ fun k hk => by
      obtain ⟨hl, hm⟩ := h.last_child_lt h₀ hk
      exact ⟨hl, fun he => hm (by simp [he])⟩
  cases hadd.symm.trans he
  have hpush : Function.update (range_nodes ranges) ranges.length
      ⟨some 0, none, none, none, 0, range.end, range.end⟩ =
      push_node (range_nodes ranges) ranges.length 0 range.end := by
    funext k
    unfold push_node
    by_cases hk : k = ranges.length
    · simp [hk]
    · rw [Function.update_of_ne hk, if_neg hk]
      split
      case isTrue hk₀ =>
        subst hk₀
        match hf : (range_nodes ranges 0).first_child with
        | none => exact absurd hf hfirst
        | some _ =>
          rw [Option.some_or, ← hf]
      case isFalse => rfl
  rw [hpush] at hnodes
  have hb₁ : Building (push_node (range_nodes ranges) ranges.length 0 range.end)
      (ranges.length + 1) num_tokens [ranges.length, 0] children :=
    hb.push_node (Nat.le_of_eq (by rw [hnode]; rfl)) (Nat.le_refl _) hopened
  have hb₂ : Building (SiblingTree.pop_node
      (push_node (range_nodes ranges) ranges.length 0 range.end) ranges.length 0 num_tokens)
      (ranges.length + 1) num_tokens [0]
      (Function.update children 0 (children 0 ++ [ranges.length])) :=
    hb₁.pop_node (by rw [push_node_new]; exact hlt) (by rw [push_node_new]; exact hopened)
      (Nat.le_refl _) (Nat.le_refl _)
  rw [← hnodes, ← hlen'] at hb₂
  refine ⟨_, ⟨hb₂, h.top, fun i hi h₀ => ?_, hkind.trans h.module⟩, by omega⟩
  exact absurd (List.mem_singleton.mp hi) h₀

section

variable {pass : PassTokenizer} {target buffer : TokenBuffer} {source : InputSource}

theorem Ranged.finish {path : List Nat} {children : Nat → List Nat}
    (h : Ranged pass target.ranges target.tokens.length path children)
    (hlen : 1 < target.ranges.length) (he : finish pass target source = .ok buffer) :
    Walkable buffer.ranges := by
  unfold PassTokenizer.finish at he
  split at he
  case h_1 => cases he
  split at he
  case isTrue => cases he
  case isFalse =>
    obtain ⟨_, _, hpop, h₁, hlen₁⟩ := h.pop_ranges (target.ranges.length + 1)
      (Nat.le_succ_of_le h.path_length)
    obtain ⟨ranges₁, hpop', he⟩ := Except.bind_eq_ok.mp he
    cases hpop.symm.trans hpop'
    obtain ⟨range, hr, he⟩ := Except.bind_eq_ok.mp he
    simp only [] at he
    split at he
    case isTrue hne =>
      obtain ⟨_, hadd, he⟩ := Except.bind_eq_ok.mp he
      cases he
      obtain ⟨_, h₂, hlen₂⟩ := h₁.add_code_range (by omega) hr hne hadd
      exact h₂.walkable hlen₂
    case isFalse =>
      cases he
      exact h₁.walkable (by omega)

-- The module's range is none that a lexeme ends.
theorem pop_range_if_module {p : TokenRange → Bool} {pass' : PassTokenizer}
    {ranges : List TokenRange} {num_tokens : Nat}
    (he : pop_range_if p pass [module_range] num_tokens = .ok (pass', ranges))
    (hs : pass.stack_idx = 0) (hp : p module_range = false) :
    pass'.stack_idx = 0 ∧ ranges = [module_range] := by
  obtain ⟨range, hr, he⟩ := Except.bind_eq_ok.mp he
  rw [hs] at hr
  cases hr
  rw [hp] at he
  cases he
  exact ⟨hs, rfl⟩

-- A lexeme that opens no range leaves the module's alone.
theorem visit_lexeme_module {pass' : PassTokenizer} {target' : TokenBuffer} {lexeme : Lexeme}
    (hs : pass.stack_idx = 0) (hr : target.ranges = [module_range]) (ho : lexeme.opens = none)
    (he : visit_lexeme pass target lexeme = .ok (pass', target')) :
    pass'.stack_idx = 0 ∧ target'.ranges = [module_range] := by
  cases lexeme
  case tokens tokens opens =>
    cases ho
    cases he
    exact ⟨hs, hr⟩
  case whitespace contained_newline =>
    cases contained_newline
    case false =>
      cases he
      exact ⟨hs, hr⟩
    case true =>
      obtain ⟨⟨_, _⟩, hpop', he⟩ := Except.bind_eq_ok.mp he
      cases he
      rw [hr] at hpop'
      exact pop_range_if_module hpop' hs rfl
  case punctuation token =>
    simp only [PassTokenizer.visit_lexeme] at he
    split at he
    case h_1 =>
      cases he
      exact ⟨hs, hr⟩
    case h_2 =>
      split at he
      case h_1 => cases he
      case h_2 =>
        obtain ⟨⟨_, _⟩, hpop', he⟩ := Except.bind_eq_ok.mp he
        cases he
        rw [hr] at hpop'
        exact pop_range_if_module hpop' hs rfl
    case h_3 =>
      obtain ⟨⟨_, _⟩, hpop', he⟩ := Except.bind_eq_ok.mp he
      cases he
      rw [hr] at hpop'
      exact pop_range_if_module hpop' hs rfl
    case h_4 =>
      cases he
      exact ⟨hs, hr⟩

theorem tokenize_rounds_module {pass' : PassTokenizer} {target' : TokenBuffer}
    {source' : InputSource} (fuel : Nat) (hs : pass.stack_idx = 0)
    (hr : target.ranges = [module_range]) (ho : ¬ Opens source)
    (he : tokenize_rounds fuel pass target source = .ok (pass', target', source')) :
    pass'.stack_idx = 0 ∧ target'.ranges = [module_range] := by
  induction fuel generalizing pass target source
  case zero => cases he
  case succ fuel ih =>
    simp only [tokenize_rounds] at he
    split at he
    case h_1 =>
      cases he
      exact ⟨hs, hr⟩
    case h_2 c hn =>
      obtain ⟨⟨lexeme, source₁⟩, hc, he⟩ := Except.bind_eq_ok.mp he
      obtain ⟨⟨pass₁, target₁⟩, hv, he⟩ := Except.bind_eq_ok.mp he
      have hnone : lexeme.opens = none := by
        by_contra hopens
        exact ho (.here hn hc hopens)
      obtain ⟨hs₁, hr₁⟩ := visit_lexeme_module hs hr hnone hv
      exact ih hs₁ hr₁ (fun h => ho (.later hn hc h)) he

-- The module's range does not know its first child if that is the code at the end of the file.
theorem finish_module (hs : pass.stack_idx = 0) (hr : target.ranges = [module_range])
    (he : finish pass target source = .ok buffer) : visited_children buffer = .error .panic := by
  unfold finish at he
  split at he
  case h_1 => cases he
  split at he
  case isTrue => cases he
  case isFalse =>
    rw [hr] at he
    obtain ⟨ranges₁, hpop, he⟩ := Except.bind_eq_ok.mp he
    have hpop' : pop_ranges ([module_range].length + 1) pass [module_range] target.tokens.length =
        .ok [module_range] := by
      simp [pop_ranges, hs]
    cases hpop'.symm.trans hpop
    obtain ⟨range, hr, he⟩ := Except.bind_eq_ok.mp he
    cases hr
    simp only [] at he
    split at he
    case isTrue hne =>
      obtain ⟨_, hadd, he⟩ := Except.bind_eq_ok.mp he
      cases he
      cases hadd
      rfl
    case isFalse =>
      cases he
      rfl

end

section

variable {pass : PassTokenizer} {ranges : List TokenRange} {target : TokenBuffer}
  {path : List Nat} {children : Nat → List Nat}

theorem Ranged.pop_range_if_reports {p : TokenRange → Bool} {num_tokens : Nat}
    (hp : ∀ range, p range = true → range.range_kind ≠ .module)
    (h : Ranged pass ranges num_tokens path children) :
    Reports (PassTokenizer.pop_range_if p pass ranges num_tokens) := by
  obtain ⟨range, hr, _⟩ := get_range_of_lt h.stack_lt
  unfold PassTokenizer.pop_range_if
  rw [hr]
  refine .bind (.ok _) fun range' hr' => ?_
  cases hr'
  split
  case isTrue hpr =>
    obtain ⟨_, _, hpath⟩ := h.path_of_kind hr (hp range hpr)
    subst hpath
    obtain ⟨_, hpop, _⟩ := h.pop_range
    rw [hpop]
    exact .ok _
  case isFalse => exact .ok _

theorem Ranged.visit_lexeme_reports
    (h : Ranged pass target.ranges target.tokens.length path children) {lexeme : Lexeme}
    (hl : lexeme.Proper) : Reports (PassTokenizer.visit_lexeme pass target lexeme) := by
  cases lexeme
  case tokens tokens opens =>
    cases opens
    case none => exact .ok _
    case some range_kind =>
      obtain ⟨_, hpath⟩ := h.path_cons
      subst hpath
      have hlen : target.tokens.length < (target.tokens ++ tokens).length := by
        have := List.length_pos_iff.mpr hl
        rw [List.length_append]
        omega
      obtain ⟨_, _, _, _, hok, _⟩ := h.push_range range_kind hlen
      refine .bind ?_ fun _ _ => .ok _
      rw [hok]
      exact .ok _
  case whitespace contained_newline =>
    cases contained_newline
    case true =>
      refine .bind (h.pop_range_if_reports fun range hk => ?_) fun _ _ => .ok _
      simp_all
    case false => exact .ok _
  case punctuation token =>
    have h₁ : Ranged pass target.ranges (target.tokens ++ [token]).length path children :=
      h.mono (by simp)
    simp only [PassTokenizer.visit_lexeme]
    split
    case h_1 => exact .ok _
    case h_2 =>
      split
      case h_1 => exact .error _
      case h_2 curly_stack hc =>
        refine .bind ((h₁.with_curly_stack curly_stack).pop_range_if_reports fun range hk => ?_)
          fun _ _ => .ok _
        simp_all
    case h_3 =>
      refine .bind (h₁.pop_range_if_reports fun range hk => ?_) fun _ _ => .ok _
      simp_all
    case h_4 => exact .ok _

end

-- The ranges that come out of the tokenizer form one tree that the passes behind it can walk through,
-- exactly for those files in which a range is opened.
theorem tokenize_walkable (input : List Char) (buffer : TokenBuffer)
    (h : tokenize input = .ok buffer) :
    (Consistent (range_nodes buffer.ranges) buffer.ranges.length ∧
      visited_children buffer =
        .ok (children_of (range_nodes buffer.ranges) buffer.ranges.length 0)) ↔
    Opens (.new input) := by
  obtain ⟨⟨pass, target, source⟩, hrounds, hfinish⟩ := Except.bind_eq_ok.mp h
  constructor
  · rintro ⟨_, hv⟩
    by_contra ho
    obtain ⟨hs, hr⟩ := tokenize_rounds_module _ rfl rfl ho hrounds
    cases (finish_module hs hr hfinish).symm.trans hv
  · intro ho
    have h₀ : Ranged ⟨[], 0⟩ [module_range] 0 [0] fun _ => [] := .start
    obtain ⟨_, _, h₁, _, hlt⟩ := Ranged.tokenize_rounds _ h₀ hrounds
    have hw := h₁.finish (hlt ho) hfinish
    exact ⟨hw.consistent, hw.visited buffer.tokens⟩

-- A pragma between two ranges of code.
theorem tokenize_walkable_pragma :
    ∃ buffer, tokenize ['1', '\n', '#', 'a', ' ', '2', '\n', '3'] = .ok buffer ∧
      Consistent (range_nodes buffer.ranges) buffer.ranges.length ∧
      visited_children buffer = .ok [1, 2, 3] := by
  obtain ⟨buffer, h⟩ : ∃ buffer, tokenize ['1', '\n', '#', 'a', ' ', '2', '\n', '3'] = .ok buffer :=
    ⟨_, rfl⟩
  have ho : Opens (.new ['1', '\n', '#', 'a', ' ', '2', '\n', '3']) :=
    .later rfl rfl (.later rfl rfl (.here rfl rfl (by decide)))
  obtain ⟨hc, _⟩ := (tokenize_walkable _ buffer h).mpr ho
  refine ⟨buffer, h, hc, ?_⟩
  cases h
  rfl

-- There is no first child to start from in an empty file, nor is one known if all of it is code.
theorem code_not_walkable :
    (∃ buffer, tokenize [] = .ok buffer ∧ visited_children buffer = .error .panic) ∧
    ∃ buffer, tokenize ['1'] = .ok buffer ∧ visited_children buffer = .error .panic ∧
      ¬ Consistent (range_nodes buffer.ranges) buffer.ranges.length := by
  refine ⟨⟨_, rfl, rfl⟩, _, rfl, rfl, fun h => ?_⟩
  have := (h 0 (by decide)).first
  revert this
  decide

end PassTokenizer

end Reowolf.Parser
