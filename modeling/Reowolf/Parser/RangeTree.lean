import Reowolf.Parser.Tokenizer
import Reowolf.Library.SiblingTree

namespace Reowolf.Parser

open SiblingTree

def TokenRange.node (range : TokenRange) : IntervalNode where
  parent       := range.parent_idx
  first_child  := range.first_child_idx
  last_child   := range.last_child_idx
  next_sibling := range.next_sibling_idx
  num_children := range.num_child_ranges
  start        := range.start
  stop         := range.end

-- The ranges of a buffer as the nodes of a tree.
def range_nodes (ranges : List TokenRange) (idx : Nat) : IntervalNode :=
  ((ranges[idx]?).map TokenRange.node).getD ⟨none, none, none, none, 0, 0, 0⟩

section

variable {ranges : List TokenRange} {idx : Nat}

theorem get_range_eq_ok {range : TokenRange} :
    get_range ranges idx = .ok range ↔ ranges[idx]? = some range := by
  unfold get_range
  split
  case h_1 h => simp [h]
  case h_2 h => simp [h]

theorem get_range_of_lt (h : idx < ranges.length) :
    ∃ range, get_range ranges idx = .ok range ∧ range_nodes ranges idx = range.node := by
  have hr := List.getElem?_eq_getElem h
  exact ⟨ranges[idx], get_range_eq_ok.mpr hr, by simp [range_nodes, hr]⟩

theorem range_nodes_set (range : TokenRange) (h : idx < ranges.length) :
    range_nodes (ranges.set idx range) = Function.update (range_nodes ranges) idx range.node := by
  funext k
  by_cases hk : k = idx
  · subst hk
    simp [range_nodes, h]
  · have hk' : idx ≠ k := fun he => hk he.symm
    simp [range_nodes, hk, hk']

theorem range_nodes_append (range : TokenRange) :
    range_nodes (ranges ++ [range]) =
      Function.update (range_nodes ranges) ranges.length range.node := by
  funext k
  match Nat.lt_trichotomy k ranges.length with
  | .inl hk => simp [range_nodes, List.getElem?_append_left hk, Nat.ne_of_lt hk]
  | .inr (.inl hk) =>
    subst hk
    simp [range_nodes]
  | .inr (.inr hk) =>
    have hl : (ranges ++ [range]).length ≤ k := by
      simp only [List.length_append, List.length_singleton]
      omega
    simp [range_nodes, List.getElem?_eq_none hl, List.getElem?_eq_none (Nat.le_of_lt hk),
      Nat.ne_of_gt hk]

end

namespace PassTokenizer

-- The ranges of the buffer, and those that are open from the innermost one to that of the module.
structure Ranged (pass : PassTokenizer) (ranges : List TokenRange) (num_tokens : Nat)
    (path : List Nat) (children : Nat → List Nat) : Prop where
  building : Building (range_nodes ranges) ranges.length num_tokens path children
  top      : path.head? = some pass.stack_idx
  started  : ∀ i ∈ path, i ≠ 0 → (range_nodes ranges i).start < num_tokens
  module   : (ranges[0]?).map (·.range_kind) = some .module

section

variable {pass : PassTokenizer} {ranges : List TokenRange} {num_tokens num_tokens' : Nat}
  {path : List Nat} {children : Nat → List Nat}

theorem fix_up_sibling_ok (ranges : List TokenRange) (sibling_idx : Option Nat)
    (h : ∀ k, sibling_idx = some k → k < ranges.length) (next_idx : Nat) :
    ∃ ranges', fix_up_sibling ranges sibling_idx next_idx = .ok ranges' ∧
      ranges'.length = ranges.length ∧
      (ranges'[0]?).map (·.range_kind) = (ranges[0]?).map (·.range_kind) ∧
      ∀ k, range_nodes ranges' k =
        if sibling_idx = some k then { range_nodes ranges k with next_sibling := some next_idx }
        else range_nodes ranges k := by
  match sibling_idx, h with
  | none, _ => exact ⟨ranges, rfl, rfl, rfl, fun k => by simp⟩
  | some idx, h =>
    have hl := h idx rfl
    obtain ⟨range, hr, hn⟩ := get_range_of_lt hl
    refine ⟨_, by simp only [fix_up_sibling, hr]; rfl, by simp, ?_, fun k => ?_⟩
    · rw [List.getElem?_set]
      split
      case isTrue h₀ =>
        subst h₀
        rw [get_range_eq_ok.mp hr]
        simp
      case isFalse => rfl
    · rw [range_nodes_set _ hl, Function.update_apply]
      by_cases hk : k = idx
      · subst hk
        simp only [if_true, hn]
        rfl
      · have hk' : some idx ≠ some k := fun he => hk (Option.some.inj he).symm
        simp [hk, hk']

theorem Ranged.path_cons (h : Ranged pass ranges num_tokens path children) :
    ∃ tail, path = pass.stack_idx :: tail := by
  have ht := h.top
  match path, ht with
  | _ :: tail, ht =>
    cases ht
    exact ⟨tail, rfl⟩

theorem Ranged.stack_lt (h : Ranged pass ranges num_tokens path children) :
    pass.stack_idx < ranges.length := by
  obtain ⟨tail, he⟩ := h.path_cons
  exact h.building.path_lt _ (by simp [he])

theorem Ranged.last_child_lt (h : Ranged pass ranges num_tokens path children) {i k : Nat}
    (hi : i < ranges.length) (hk : (range_nodes ranges i).last_child = some k) :
    k < ranges.length ∧ k ∉ path := by
  obtain ⟨hl, _, hm⟩ := h.building.of_child (h.building.last_child_mem hi hk)
  exact ⟨hl, hm⟩

-- More tokens do not change the ranges.
theorem Ranged.mono (h : Ranged pass ranges num_tokens path children)
    (hl : num_tokens ≤ num_tokens') : Ranged pass ranges num_tokens' path children where
  building := { h.building with
    opened := fun i hi => ⟨(h.building.opened i hi).1, Nat.le_trans (h.building.opened i hi).2 hl⟩ }
  top := h.top
  started i hi h₀ := Nat.lt_of_lt_of_le (h.started i hi h₀) hl
  module := h.module

theorem kind_set {idx : Nat} {range range' : TokenRange} (h : get_range ranges idx = .ok range)
    (hk : range'.range_kind = range.range_kind) :
    ((ranges.set idx range')[0]?).map (·.range_kind) = (ranges[0]?).map (·.range_kind) := by
  rw [List.getElem?_set]
  split
  case isTrue h₀ =>
    subst h₀
    rw [get_range_eq_ok.mp h]
    have hl := (List.getElem?_eq_some_iff.mp (get_range_eq_ok.mp h)).1
    simp [hl, hk]
  case isFalse => rfl

-- What ending the innermost range does to the nodes.
theorem pop_range_ok (num_tokens : Nat) {parent : Nat} (hc : pass.stack_idx < ranges.length)
    (hp : parent < ranges.length) (hcp : pass.stack_idx ≠ parent)
    (hpar : (range_nodes ranges pass.stack_idx).parent = some parent)
    (hfirst : (range_nodes ranges parent).first_child ≠ none)
    (hl : ∀ k, (range_nodes ranges parent).last_child = some k →
      k < ranges.length ∧ k ≠ pass.stack_idx ∧ k ≠ parent) :
    ∃ ranges', pass.pop_range ranges num_tokens = .ok ({ pass with stack_idx := parent }, ranges') ∧
      ranges'.length = ranges.length ∧
      (ranges'[0]?).map (·.range_kind) = (ranges[0]?).map (·.range_kind) ∧
      range_nodes ranges' =
        SiblingTree.pop_node (range_nodes ranges) pass.stack_idx parent num_tokens := by
  obtain ⟨popped, hpopped, hnode⟩ := get_range_of_lt hc
  obtain ⟨parent_range, hparent, hnode'⟩ := get_range_of_lt hp
  rw [hnode] at hpar
  rw [hnode'] at hfirst hl
  let ranges₁ := ranges.set pass.stack_idx { popped with «end» := num_tokens }
  let parent_range' := { parent_range with
    first_child_idx := parent_range.first_child_idx.or (some pass.stack_idx)
    last_child_idx := some pass.stack_idx
    «end» := num_tokens
    num_child_ranges := parent_range.num_child_ranges + 1 }
  have hp₁ : parent < ranges₁.length := by simpa [ranges₁] using hp
  have hparent₁ : get_range ranges₁ parent = .ok parent_range := by
    rw [get_range_eq_ok, List.getElem?_set_ne hcp]
    exact get_range_eq_ok.mp hparent
  have hl' : ∀ k, parent_range.last_child_idx = some k →
      k < ranges.length ∧ k ≠ pass.stack_idx ∧ k ≠ parent := hl
  obtain ⟨ranges', hfix, hlen, hkind, hnodes⟩ := fix_up_sibling_ok (ranges₁.set parent parent_range')
    parent_range.last_child_idx (by simpa [ranges₁] using fun k hk => (hl' k hk).1) pass.stack_idx
  refine ⟨ranges', ?_, by simpa [ranges₁] using hlen, ?_, ?_⟩
  · unfold PassTokenizer.pop_range
    refine Except.bind_eq_ok.mpr ⟨popped, hpopped, ?_⟩
    simp only []
    split
    case h_1 h => cases h.symm.trans hpar
    case h_2 parent' h =>
      cases h.symm.trans hpar
      exact Except.bind_eq_ok.mpr ⟨parent_range, hparent₁,
        Except.bind_eq_ok.mpr ⟨ranges', hfix, rfl⟩⟩
  · have hk : parent_range'.range_kind = parent_range.range_kind := rfl
    exact hkind.trans ((kind_set hparent₁ hk).trans (kind_set hpopped rfl))
  · have hf : parent_range.first_child_idx.or (some pass.stack_idx) =
        parent_range.first_child_idx := by
      have hf : parent_range.first_child_idx ≠ none := hfirst
      match hn : parent_range.first_child_idx with
      | none => exact absurd hn hf
      | some _ => rfl
    funext k
    rw [hnodes, range_nodes_set _ hp₁, range_nodes_set _ hc]
    simp only [SiblingTree.pop_node, Function.update_apply, hnode']
    by_cases hkc : k = pass.stack_idx
    · have hs : parent_range.last_child_idx ≠ some k := fun he => (hl' k he).2.1 hkc
      have hkp : k ≠ parent := fun he => hcp (hkc.symm.trans he)
      rw [if_neg hs, if_neg hkp, if_pos hkc, if_pos hkc, hkc, hnode]
      rfl
    · by_cases hkp : k = parent
      · have hs : parent_range.last_child_idx ≠ some k := fun he => (hl' k he).2.2 hkp
        rw [if_neg hs, if_pos hkp, if_neg hkc, if_pos hkp, hkp, hnode']
        simp only [parent_range', TokenRange.node, hf]
      · simp only [if_neg hkc, if_neg hkp]
        rfl

-- A range of code is opened and ended at once.
theorem add_code_range_ok (curly_depth : Nat) (ranges : List TokenRange) {parent : Nat}
    (start «end» : Nat) (next_sibling : Option Nat) (hp : parent < ranges.length)
    (hl : ∀ k, (range_nodes ranges parent).last_child = some k → k < ranges.length ∧ k ≠ parent) :
    ∃ ranges', add_code_range curly_depth ranges parent start «end» next_sibling = .ok ranges' ∧
      ranges'.length = ranges.length + 1 ∧
      (ranges'[0]?).map (·.range_kind) = (ranges[0]?).map (·.range_kind) ∧
      range_nodes ranges' = SiblingTree.pop_node
        (Function.update (range_nodes ranges) ranges.length
          ⟨some parent, none, none, next_sibling, 0, start, start⟩) ranges.length parent «end» := by
  obtain ⟨parent_range, hparent, hnode⟩ := get_range_of_lt hp
  rw [hnode] at hl
  have hl : ∀ k, parent_range.last_child_idx = some k → k < ranges.length ∧ k ≠ parent := hl
  let parent_range' := { parent_range with
    last_child_idx := some ranges.length
    «end» := «end»
    num_child_ranges := parent_range.num_child_ranges + 1 }
  let code := childless (some parent) .code curly_depth start «end» next_sibling
  obtain ⟨ranges', hfix, hlen, hkind, hnodes⟩ := fix_up_sibling_ok
    (ranges.set parent parent_range' ++ [code]) parent_range.last_child_idx
    (fun k hk => by
      have := (hl k hk).1
      simp only [List.length_append, List.length_set, List.length_singleton]
      omega) ranges.length
  refine ⟨ranges', ?_, by simpa using hlen, ?_, ?_⟩
  · unfold add_code_range
    exact Except.bind_eq_ok.mpr ⟨parent_range, hparent, hfix⟩
  · rw [List.getElem?_append_left (by simp; omega)] at hkind
    exact hkind.trans (kind_set hparent rfl)
  · funext k
    rw [hnodes, range_nodes_append, range_nodes_set _ hp]
    simp only [SiblingTree.pop_node, Function.update_apply, List.length_set]
    by_cases hk : k = ranges.length
    · have hs : parent_range.last_child_idx ≠ some k := fun he => Nat.ne_of_lt (hl k he).1 hk
      simp only [if_pos hk, if_neg hs]
      rfl
    · by_cases hkp : k = parent
      · have hs : parent_range.last_child_idx ≠ some k := fun he => (hl k he).2 hkp
        subst hkp
        simp only [if_neg hk, if_neg hs, if_true, hnode]
        rfl
      · have hpn : parent ≠ ranges.length := Nat.ne_of_lt hp
        simp only [if_neg hk, if_neg hkp, if_neg hpn, hnode]
        rfl

theorem Ranged.first_child {parent : Nat}
    (h : Ranged pass ranges num_tokens (pass.stack_idx :: parent :: path) children) :
    (range_nodes ranges parent).first_child ≠ none := by
  have := (h.building.linked parent (h.building.path_lt parent (by simp))).first
  rw [child_on_path_cons_self] at this
  rw [this]
  simp

-- Ending the innermost range, which is not that of the module.
theorem Ranged.pop_range {parent : Nat}
    (h : Ranged pass ranges num_tokens (pass.stack_idx :: parent :: path) children) :
    ∃ ranges', pass.pop_range ranges num_tokens = .ok ({ pass with stack_idx := parent }, ranges') ∧
      Ranged { pass with stack_idx := parent } ranges' num_tokens (parent :: path)
        (Function.update children parent (children parent ++ [pass.stack_idx])) ∧
      ranges'.length = ranges.length := by
  have hb := h.building
  have hp := hb.path_lt parent (by simp)
  have hlt := hb.top_lt parent (by simp)
  have hcp : pass.stack_idx ≠ parent := (Nat.ne_of_lt hlt).symm
  obtain ⟨ranges', he, hlen, hkind, hnodes⟩ := pop_range_ok num_tokens h.stack_lt hp hcp
    (List.isChain_cons_cons.mp hb.parents).1 h.first_child fun k hk => by
      obtain ⟨hl, hm⟩ := h.last_child_lt hp hk
      simp only [List.mem_cons, not_or] at hm
      exact ⟨hl, hm.1, hm.2.1⟩
  have hs := h.started pass.stack_idx (by simp) (by omega)
  have hb' := hb.pop_node hs (hb.opened _ (by simp)).2 (Nat.le_refl _) (Nat.le_refl _)
  rw [← hnodes, ← hlen] at hb'
  refine ⟨ranges', he, ⟨hb', rfl, fun i hi h₀ => ?_, hkind.trans h.module⟩, hlen⟩
  have hic : i ≠ pass.stack_idx := Nat.ne_of_lt (hb.top_lt i hi)
  have hst : (range_nodes ranges' i).start = (range_nodes ranges i).start := by
    rw [hnodes]
    simp only [SiblingTree.pop_node, if_neg hic]
    split
    · rfl
    · split <;> rfl
  rw [hst]
  exact h.started i (List.mem_cons_of_mem _ hi) h₀

theorem range_nodes_childless {parent_idx next_sibling : Option Nat} {kind : TokenRangeKind}
    {curly_depth start «end» : Nat} :
    (childless parent_idx kind curly_depth start «end» next_sibling).node =
      ⟨parent_idx, none, none, next_sibling, 0, start, «end»⟩ :=
  rfl

-- A new range below the innermost one, which begins with the next token and has at least one.
theorem Ranged.push_range {tail : List Nat}
    (h : Ranged pass ranges num_tokens (pass.stack_idx :: tail) children) (range_kind : TokenRangeKind)
    (hn : num_tokens < num_tokens') :
    ∃ pass' ranges' path' children', pass.push_range ranges range_kind num_tokens =
        .ok (pass', ranges') ∧
      Ranged pass' ranges' num_tokens' path' children' ∧ pass'.curly_stack = pass.curly_stack ∧
      ranges.length < ranges'.length := by
  have hb := h.building
  have hp := h.stack_lt
  have hpn : pass.stack_idx ≠ ranges.length := Nat.ne_of_lt hp
  obtain ⟨range, hr, hnode⟩ := get_range_of_lt hp
  have hopened := (hb.opened pass.stack_idx (by simp)).2
  let range' := { range with first_child_idx := range.first_child_idx.or (some ranges.length) }
  have hk : range'.range_kind = range.range_kind := rfl
  have hset : ∀ k, k ≠ pass.stack_idx → range_nodes (ranges.set pass.stack_idx range') k =
      range_nodes ranges k := by
    intro k hk
    rw [range_nodes_set _ hp, Function.update_of_ne hk]
  have hself : range_nodes (ranges.set pass.stack_idx range') pass.stack_idx = range'.node := by
    rw [range_nodes_set _ hp, Function.update_self]
  have hlt : ∀ k ∈ pass.stack_idx :: tail, k < ranges.length := hb.path_lt
  by_cases he : range.end = num_tokens
  · -- The parent has been covered up to here.
    have hb' : Building (push_node (range_nodes ranges) ranges.length pass.stack_idx num_tokens)
        (ranges.length + 1) num_tokens' (ranges.length :: pass.stack_idx :: tail) children :=
      hb.push_node hopened (by omega) (by omega)
    let ranges' := ranges.set pass.stack_idx range' ++ [childless (some pass.stack_idx) range_kind
      pass.curly_stack.length num_tokens num_tokens none]
    have hnodes : range_nodes ranges' =
        push_node (range_nodes ranges) ranges.length pass.stack_idx num_tokens := by
      funext k
      simp only [ranges', range_nodes_append, List.length_set, range_nodes_set _ hp, push_node,
        Function.update_apply]
      by_cases hk : k = ranges.length
      · simp only [if_pos hk, range_nodes_childless]
      · by_cases hkp : k = pass.stack_idx
        · subst hkp
          simp only [if_neg hk, if_true, hnode]
          rfl
        · simp only [if_neg hk, if_neg hkp]
    have hlen : ranges'.length = ranges.length + 1 := by simp [ranges']
    refine ⟨{ pass with stack_idx := ranges.length }, ranges', _, children, ?_,
      ⟨by rw [hnodes, hlen]; exact hb', rfl, fun i hi h₀ => ?_, ?_⟩, rfl, by omega⟩
    · unfold PassTokenizer.push_range
      refine Except.bind_eq_ok.mpr ⟨range, hr, ?_⟩
      simp [he, ranges', range', bind, Except.bind]
    · rw [hnodes]
      cases List.mem_cons.mp hi
      case inl hi =>
        subst hi
        rw [push_node_new]
        exact hn
      case inr hi =>
        obtain ⟨_, _, _, _, hs, _⟩ := push_node_rest (range_nodes ranges) pass.stack_idx
          num_tokens (Nat.ne_of_lt (hlt i hi))
        rw [hs]
        exact Nat.lt_trans (h.started i hi h₀) hn
    · rw [List.getElem?_append_left (by simp; omega)]
      exact (kind_set hr hk).trans h.module
  · -- A range of code comes in between.
    have hlast : ∀ k, (range_nodes (ranges.set pass.stack_idx range') pass.stack_idx).last_child =
        some k → k < (ranges.set pass.stack_idx range').length ∧ k ≠ pass.stack_idx := by
      intro k hk
      rw [hself] at hk
      obtain ⟨hl, hm⟩ := h.last_child_lt (k := k) hp (by rw [hnode]; exact hk)
      simp only [List.mem_cons, not_or] at hm
      simpa using ⟨hl, hm.1⟩
    obtain ⟨ranges₁, hadd, hlen, hkind, hnodes⟩ := add_code_range_ok pass.curly_stack.length
      (ranges.set pass.stack_idx range') range.end num_tokens (some (ranges.length + 1))
      (by simpa using hp) hlast
    rw [List.length_set] at hlen hnodes
    rw [hnode] at hopened
    have hlt' : range.end < num_tokens := Nat.lt_of_le_of_ne hopened he
    let n := ranges.length
    let nodes₁ := push_node (range_nodes ranges) n pass.stack_idx range.end
    let nodes₂ := pop_node nodes₁ n pass.stack_idx num_tokens
    let nodes₃ := push_node nodes₂ (n + 1) pass.stack_idx num_tokens
    have hn₁ : nodes₁ n = ⟨some pass.stack_idx, none, none, none, 0, range.end, range.end⟩ :=
      push_node_new ..
    have hp₂ : (nodes₂ pass.stack_idx).stop = num_tokens := by
      simp [nodes₂, SiblingTree.pop_node, n, hpn]
    have hb₁ : Building nodes₁ (n + 1) num_tokens (n :: pass.stack_idx :: tail) children :=
      hb.push_node (Nat.le_of_eq (by rw [hnode]; rfl)) (Nat.le_refl _) hopened
    have hb₂ : Building nodes₂ (n + 1) num_tokens (pass.stack_idx :: tail)
        (Function.update children pass.stack_idx (children pass.stack_idx ++ [n])) :=
      hb₁.pop_node (by rw [hn₁]; exact hlt') (by rw [hn₁]; exact hopened) (Nat.le_refl _)
        (Nat.le_refl _)
    have hb₃ : Building nodes₃ (n + 1 + 1) num_tokens' ((n + 1) :: pass.stack_idx :: tail)
        (Function.update children pass.stack_idx (children pass.stack_idx ++ [n])) :=
      hb₂.push_node (Nat.le_of_eq hp₂) (Nat.le_of_lt hn) (Nat.le_of_lt hn)
    have hb₄ := hb₃.link_next (k := n) (by simp)
    let ranges' := ranges₁ ++ [childless (some pass.stack_idx) range_kind pass.curly_stack.length
      num_tokens num_tokens none]
    have hnodes' : range_nodes ranges' =
        Function.update nodes₃ n { nodes₃ n with next_sibling := some (n + 1) } := by
      funext k
      simp only [ranges', range_nodes_append, hnodes, hlen, nodes₃, nodes₂, nodes₁, n,
        range_nodes_set _ hp, push_node, SiblingTree.pop_node, Function.update_apply,
        range_nodes_childless]
      by_cases hk : k = ranges.length + 1
      · have hkn : k ≠ ranges.length := by omega
        simp [hk]
      · by_cases hkn : k = ranges.length
        · simp [hkn, hpn.symm]
        · by_cases hkp : k = pass.stack_idx
          · simp [hkp, hpn, hnode, TokenRange.node, range']
          · simp [hk, hkn, hkp, hpn, hnode, TokenRange.node, range']
    have hlen' : ranges'.length = n + 1 + 1 := by simp [ranges', hlen, n]
    refine ⟨{ pass with stack_idx := n + 1 }, ranges', _, _, ?_,
      ⟨by rw [hnodes', hlen']; exact hb₄, rfl, fun i hi h₀ => ?_, ?_⟩, rfl, by omega⟩
    · unfold PassTokenizer.push_range
      refine Except.bind_eq_ok.mpr ⟨range, hr, ?_⟩
      simp only [he, ne_eq, not_false_eq_true, if_true]
      refine Except.bind_eq_ok.mpr ⟨ranges₁, hadd, ?_⟩
      rw [hlen]
    · have hin : i ≠ n := by
        cases List.mem_cons.mp hi
        case inl hi => omega
        case inr hi => exact Nat.ne_of_lt (hlt i hi)
      rw [hnodes', Function.update_of_ne hin]
      cases List.mem_cons.mp hi
      case inl hi =>
        have hs : (nodes₃ i).start = num_tokens := by
          rw [hi]
          exact congrArg IntervalNode.start (push_node_new ..)
        rw [hs]
        exact hn
      case inr hi =>
        have hs : (nodes₃ i).start = (range_nodes ranges i).start := by
          obtain ⟨_, _, _, _, h₃, _⟩ := push_node_rest nodes₂ pass.stack_idx num_tokens
            (Nat.ne_of_lt (Nat.lt_succ_of_lt (hlt i hi)))
          obtain ⟨_, _, _, _, h₁, _⟩ := push_node_rest (range_nodes ranges) pass.stack_idx range.end
            (Nat.ne_of_lt (hlt i hi))
          rw [h₃, ← h₁]
          simp only [nodes₂, SiblingTree.pop_node, if_neg hin]
          split
          · rfl
          · split <;> rfl
        rw [hs]
        exact Nat.lt_trans (h.started i hi h₀) hn
    · have hl₁ : 0 < ranges₁.length := by omega
      rw [List.getElem?_append_left hl₁]
      exact hkind.trans ((kind_set hr hk).trans h.module)

end

end PassTokenizer

end Reowolf.Parser
