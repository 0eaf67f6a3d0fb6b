import Mathlib.Data.List.Chain
import Mathlib.Logic.Function.Basic

namespace SiblingTree

-- A node of a tree of intervals that is kept in an array. The children of a node are linked from the
-- first to the last one.
structure IntervalNode where
  parent        : Option Nat
  first_child   : Option Nat
  last_child    : Option Nat
  next_sibling  : Option Nat
  num_children  : Nat
  start         : Nat
  stop          : Nat

-- The child of a node on a path from an open node to the root, of which the child is in front.
def child_on_path : List Nat → Nat → Option Nat
  | child :: parent :: path, i =>
    if i = parent then some child else child_on_path (parent :: path) i
  | _, _ => none

-- A node that has the given children, and one more that is still open.
structure Linked (nodes : Nat → IntervalNode) (i : Nat) (children : List Nat) (open_child : Option Nat) :
    Prop where
  num      : (nodes i).num_children = children.length
  first    : (nodes i).first_child = (children ++ open_child.toList).head?
  last     : (nodes i).last_child = children.getLast?
  next     : children.IsChain fun k k' => (nodes k).next_sibling = some k'
  stops    : ∀ k ∈ children.getLast?,
    (nodes k).next_sibling = none ∨ (nodes k).next_sibling = open_child
  disjoint : children.IsChain fun k k' => (nodes k).stop ≤ (nodes k').start
  nested   : ∀ k ∈ children, (nodes i).start ≤ (nodes k).start ∧
    (nodes k).start < (nodes k).stop ∧ (nodes k).stop ≤ (nodes i).stop
  sorted   : children.IsChain (· < ·)

-- A tree that is built from the left to the right. The nodes on the path are still open, and what has
-- been covered ends at a bound.
structure Building (nodes : Nat → IntervalNode) (num_nodes bound : Nat) (path : List Nat)
    (children : Nat → List Nat) : Prop where
  root        : path.getLast? = some 0
  root_parent : (nodes 0).parent = none
  decreasing  : path.IsChain (· > ·)
  path_lt     : ∀ i ∈ path, i < num_nodes
  parents     : path.IsChain fun c p => (nodes c).parent = some p
  opened      : ∀ i ∈ path, (nodes i).start ≤ (nodes i).stop ∧ (nodes i).stop ≤ bound
  open_child  : ∀ {i c}, child_on_path path i = some c →
    (nodes i).stop ≤ (nodes c).start ∧ (nodes c).next_sibling = none ∧ ∀ k ∈ children i, k < c
  linked      : ∀ i < num_nodes, Linked nodes i (children i) (child_on_path path i)
  outside     : ∀ i, num_nodes ≤ i → children i = []
  of_child    : ∀ {i k}, k ∈ children i → k < num_nodes ∧ (nodes k).parent = some i ∧ k ∉ path
  parent_lt   : ∀ {i k}, k ∈ children i → i < k
  child       : ∀ {k}, k < num_nodes → k ∉ path → ∃ i, k ∈ children i

-- Appends a node below another one.
def push_node (nodes : Nat → IntervalNode) (num_nodes parent start k : Nat) : IntervalNode :=
  if k = num_nodes then
    ⟨some parent, none, none, none, 0, start, start⟩
  else if k = parent then
    { nodes k with first_child := (nodes k).first_child.or (some num_nodes) }
  else
    nodes k

-- Ends an open node, which becomes the last child of its parent.
def pop_node (nodes : Nat → IntervalNode) (child parent stop k : Nat) : IntervalNode :=
  if k = child then
    { nodes k with stop := stop }
  else if k = parent then
    { nodes k with
      last_child := some child, num_children := (nodes k).num_children + 1, stop := stop }
  else if (nodes parent).last_child = some k then
    { nodes k with next_sibling := some child }
  else
    nodes k

section

variable {nodes : Nat → IntervalNode} {num_nodes bound : Nat} {path : List Nat}
  {children : Nat → List Nat}

theorem child_on_path_cons_self (child parent : Nat) (path : List Nat) :
    child_on_path (child :: parent :: path) parent = some child :=
  if_pos rfl

theorem child_on_path_cons_ne {child parent i : Nat} (h : i ≠ parent) (path : List Nat) :
    child_on_path (child :: parent :: path) i = child_on_path (parent :: path) i :=
  if_neg h

theorem child_on_path_mem {i c : Nat} : {path : List Nat} → child_on_path path i = some c →
    i ∈ path ∧ c ∈ path
  | [], h | [_], h => by cases h
  | child :: parent :: path, h => by
    by_cases hi : i = parent
    case pos =>
      rw [hi, child_on_path_cons_self] at h
      cases h
      simp [hi]
    case neg =>
      rw [child_on_path_cons_ne hi] at h
      obtain ⟨hi, hc⟩ := child_on_path_mem h
      exact ⟨List.mem_cons_of_mem _ hi, List.mem_cons_of_mem _ hc⟩

theorem child_on_path_tail {i c : Nat} : {path : List Nat} → child_on_path path i = some c →
    i ∈ path.tail
  | [], h | [_], h => by cases h
  | child :: parent :: path, h => by
    by_cases hi : i = parent
    case pos => simp [hi]
    case neg =>
      rw [child_on_path_cons_ne hi] at h
      exact List.mem_cons_of_mem _ (child_on_path_tail h)

theorem child_on_path_top {top : Nat} {path : List Nat} (h : top ∉ path) :
    child_on_path (top :: path) top = none := by
  match hc : child_on_path (top :: path) top with
  | none => rfl
  | some c => exact absurd (child_on_path_tail hc) h

section

variable (nodes) (parent start : Nat)

theorem push_node_new (num_nodes : Nat) : push_node nodes num_nodes parent start num_nodes =
    ⟨some parent, none, none, none, 0, start, start⟩ := by
  simp [push_node]

theorem push_node_first {num_nodes : Nat} (h : parent ≠ num_nodes) :
    (push_node nodes num_nodes parent start parent).first_child =
      (nodes parent).first_child.or (some num_nodes) := by
  simp [push_node, h]

theorem push_node_first_ne {num_nodes k : Nat} (h : k ≠ num_nodes) (hp : k ≠ parent) :
    (push_node nodes num_nodes parent start k).first_child = (nodes k).first_child := by
  simp [push_node, h, hp]

-- The rest of the nodes that are there already stays as it is.
theorem push_node_rest {num_nodes k : Nat} (h : k ≠ num_nodes) :
    (push_node nodes num_nodes parent start k).parent = (nodes k).parent ∧
    (push_node nodes num_nodes parent start k).last_child = (nodes k).last_child ∧
    (push_node nodes num_nodes parent start k).next_sibling = (nodes k).next_sibling ∧
    (push_node nodes num_nodes parent start k).num_children = (nodes k).num_children ∧
    (push_node nodes num_nodes parent start k).start = (nodes k).start ∧
    (push_node nodes num_nodes parent start k).stop = (nodes k).stop := by
  simp only [push_node, if_neg h]
  split <;> simp

end

-- What a parent looks at of a child stays the same.
def SameChild (nodes nodes' : Nat → IntervalNode) (k : Nat) : Prop :=
  (nodes' k).next_sibling = (nodes k).next_sibling ∧ (nodes' k).start = (nodes k).start ∧
    (nodes' k).stop = (nodes k).stop

theorem SameChild.of_eq {nodes' : Nat → IntervalNode} {k : Nat} (h : nodes' k = nodes k) :
    SameChild nodes nodes' k := by
  simp [SameChild, h]

-- A node is linked in the same way where everything that is looked at is the same.
theorem Linked.congr {nodes' : Nat → IntervalNode} {i : Nat} {kids : List Nat} {o o' : Option Nat}
    (h : Linked nodes i kids o)
    (hn : (nodes' i).num_children = (nodes i).num_children)
    (hf : (nodes' i).first_child = (kids ++ o'.toList).head?)
    (hl : (nodes' i).last_child = (nodes i).last_child)
    (hs : (nodes' i).start = (nodes i).start) (he : (nodes i).stop ≤ (nodes' i).stop)
    (ho : o = none ∨ o = o')
    (hk : ∀ k ∈ kids, SameChild nodes nodes' k) :
    Linked nodes' i kids o' where
  num := hn.trans h.num
  first := hf
  last := hl.trans h.last
  next := h.next.imp_of_mem_imp fun k _ hm _ he => (hk k hm).1.trans he
  stops k hm := by
    rw [(hk k (List.mem_of_mem_getLast? hm)).1]
    match h.stops k hm, ho with
    | .inl he, _ => exact .inl he
    | .inr he, .inl ho => exact .inl (he.trans ho)
    | .inr he, .inr ho => exact .inr (he.trans ho)
  disjoint := h.disjoint.imp_of_mem_imp fun k k' hm hm' he => by
    rw [(hk k hm).2.2, (hk k' hm').2.1]
    exact he
  nested k hm := by
    have := h.nested k hm
    rw [(hk k hm).2.1, (hk k hm).2.2, hs]
    omega
  sorted := h.sorted

namespace Building

theorem top_lt {top : Nat} (h : Building nodes num_nodes bound (top :: path) children) :
    ∀ i ∈ path, i < top := by
  have := (List.pairwise_cons.mp (h.decreasing.pairwise)).1
  exact fun i hi => this i hi

theorem top_not_mem {top : Nat} (h : Building nodes num_nodes bound (top :: path) children) :
    top ∉ path :=
  fun hm => Nat.lt_irrefl _ (h.top_lt top hm)

-- A node is opened below the innermost open one.
theorem push_node {top : Nat} (h : Building nodes num_nodes bound (top :: path) children)
    {start bound' : Nat} (hs : (nodes top).stop ≤ start)
    (hb : bound ≤ bound') (hs' : start ≤ bound') :
    Building (push_node nodes num_nodes top start) (num_nodes + 1) bound'
      (num_nodes :: top :: path) children := by
  have hlt := h.path_lt
  have htop := hlt top (List.mem_cons_self ..)
  have hne : ∀ {k}, k < num_nodes → k ≠ num_nodes := fun hk => Nat.ne_of_lt hk
  have hrest : ∀ {k}, k < num_nodes → _ := fun hk =>
    push_node_rest nodes top start (hne hk)
  have hnew := push_node_new nodes top start num_nodes
  constructor
  case root => simpa using h.root
  case root_parent =>
    rw [(hrest (Nat.lt_of_le_of_lt (Nat.zero_le _) htop)).1]
    exact h.root_parent
  case decreasing => exact List.isChain_cons_cons.mpr ⟨htop, h.decreasing⟩
  case path_lt =>
    intro i hi
    cases List.mem_cons.mp hi
    case inl hi => omega
    case inr hi =>
      have := hlt i hi
      omega
  case parents =>
    refine List.isChain_cons_cons.mpr ⟨by rw [hnew], ?_⟩
    refine h.parents.imp_of_mem_imp fun c p hc _ hp => ?_
    rw [(hrest (hlt c hc)).1]
    exact hp
  case opened =>
    intro i hi
    cases List.mem_cons.mp hi
    case inl hi =>
      subst hi
      rw [hnew]
      exact ⟨Nat.le_refl _, hs'⟩
    case inr hi =>
      obtain ⟨_, _, _, _, hst, hsp⟩ := hrest (hlt i hi)
      have := h.opened i hi
      rw [hst, hsp]
      omega
  case open_child =>
    intro i c hc
    by_cases hi : i = top
    · subst hi
      rw [child_on_path_cons_self] at hc
      cases hc
      obtain ⟨_, _, _, _, _, hsp⟩ := hrest htop
      rw [hsp, hnew]
      exact ⟨hs, rfl, fun k hk => (h.of_child hk).1⟩
    · rw [child_on_path_cons_ne hi] at hc
      obtain ⟨hm, hm'⟩ := child_on_path_mem hc
      obtain ⟨_, _, _, _, _, hsp⟩ := hrest (hlt i hm)
      obtain ⟨_, _, hnx, _, hst, _⟩ := hrest (hlt c hm')
      rw [hsp, hnx, hst]
      exact h.open_child hc
  case linked =>
    intro i hi
    cases Nat.lt_or_eq_of_le (Nat.le_of_lt_succ hi)
    case inr hi =>
      subst hi
      have hm : i ∉ top :: path := fun hm => Nat.lt_irrefl _ (hlt i hm)
      rw [h.outside i (Nat.le_refl i), child_on_path_top hm]
      constructor <;> simp [hnew]
    case inl hi =>
      obtain ⟨_, hla, _, hnu, hst, hsp⟩ := hrest hi
      have hl := h.linked i hi
      have hk : ∀ k ∈ children i, SameChild nodes _ k := fun k hm =>
        let hr := hrest (h.of_child hm).1
        ⟨hr.2.2.1, hr.2.2.2.2.1, hr.2.2.2.2.2⟩
      by_cases ht : i = top
      · subst ht
        rw [child_on_path_cons_self]
        rw [child_on_path_top h.top_not_mem] at hl
        refine hl.congr hnu ?_ hla hst (Nat.le_of_eq hsp.symm) (.inl rfl) hk
        rw [push_node_first nodes i start (Nat.ne_of_lt hi), hl.first]
        simp
      · rw [child_on_path_cons_ne ht]
        refine hl.congr hnu ?_ hla hst (Nat.le_of_eq hsp.symm) (.inr rfl) hk
        rw [push_node_first_ne nodes top start (Nat.ne_of_lt hi) ht, hl.first]
  case outside => exact fun i hi => h.outside i (by omega)
  case of_child =>
    intro i k hk
    obtain ⟨hkl, hp, hm⟩ := h.of_child hk
    rw [(hrest hkl).1]
    exact ⟨by omega, hp, fun hm' => (List.mem_cons.mp hm').elim (Nat.ne_of_lt hkl) hm⟩
  case parent_lt => exact h.parent_lt
  case child =>
    intro k hk hm
    rw [List.mem_cons, not_or] at hm
    exact h.child (by omega) hm.2

theorem last_child_mem {i k : Nat} (h : Building nodes num_nodes bound path children)
    (hi : i < num_nodes) (hk : (nodes i).last_child = some k) : k ∈ children i :=
  List.mem_of_mem_getLast? ((h.linked i hi).last ▸ hk)

end Building

namespace Building

-- The links of the parent of a node that is ended.
theorem linked_parent {child parent stop : Nat}
    (h : Building nodes num_nodes bound (child :: parent :: path) children)
    (hs : (nodes child).start < stop) (hst : (nodes parent).start ≤ (nodes parent).stop) :
    Linked (SiblingTree.pop_node nodes child parent stop) parent (children parent ++ [child]) none := by
  have hpl := h.path_lt parent (by simp)
  have hcp : child ≠ parent := (Nat.ne_of_lt (h.top_lt parent (List.mem_cons_self ..))).symm
  have hl := h.linked parent hpl
  rw [child_on_path_cons_self] at hl
  obtain ⟨hopen, hnx, hlt⟩ := h.open_child (child_on_path_cons_self child parent path)
  have hne : ∀ k ∈ children parent, k ≠ child ∧ k ≠ parent := fun k hk => by
    have := (h.of_child hk).2.2
    simp only [List.mem_cons, not_or] at this
    exact ⟨this.1, this.2.1⟩
  have hc : SiblingTree.pop_node nodes child parent stop child = { nodes child with stop := stop } := by
    simp [SiblingTree.pop_node]
  have hp : SiblingTree.pop_node nodes child parent stop parent = { nodes parent with
      last_child := some child, num_children := (nodes parent).num_children + 1, stop := stop } := by
    simp [SiblingTree.pop_node, hcp.symm]
  have hstart : ∀ k ∈ children parent,
      (SiblingTree.pop_node nodes child parent stop k).start = (nodes k).start ∧
      (SiblingTree.pop_node nodes child parent stop k).stop = (nodes k).stop := by
    intro k hk
    obtain ⟨hc, hp⟩ := hne k hk
    simp only [SiblingTree.pop_node, if_neg hc, if_neg hp]
    split <;> simp
  have hlast : ∀ k ∈ (children parent).getLast?,
      (SiblingTree.pop_node nodes child parent stop k).next_sibling = some child := by
    intro k hk
    obtain ⟨hc, hp⟩ := hne k (List.mem_of_mem_getLast? hk)
    simp [SiblingTree.pop_node, hc, hp, hl.last.trans hk]
  constructor
  case num => simp [hp, hl.num]
  case first => simpa [hp] using hl.first
  case last => simp [hp]
  case next =>
    refine List.isChain_append.mpr ⟨?_, List.isChain_singleton child, ?_⟩
    · refine hl.next.imp_of_mem_imp fun k k' hk hk' he => ?_
      obtain ⟨hc, hp⟩ := hne k hk
      simp only [SiblingTree.pop_node, if_neg hc, if_neg hp]
      split
      case isFalse => exact he
      case isTrue hla =>
        -- The last child has no next one yet, except for the one that is ended now.
        match hl.stops k (hl.last ▸ hla) with
        | .inl hn => cases hn.symm.trans he
        | .inr hn => exact absurd (Option.some.inj (hn.symm.trans he)).symm (hne k' hk').1
    · intro k hk k' hk'
      cases hk'
      exact hlast k hk
  case stops =>
    intro k hk
    rw [List.getLast?_concat] at hk
    cases hk
    exact .inl (by rw [hc]; exact hnx)
  case disjoint =>
    refine List.isChain_append.mpr ⟨?_, List.isChain_singleton child, ?_⟩
    · refine hl.disjoint.imp_of_mem_imp fun k k' hk hk' he => ?_
      rw [(hstart k hk).2, (hstart k' hk').1]
      exact he
    · intro k hk k' hk'
      cases hk'
      have hm := List.mem_of_mem_getLast? hk
      rw [(hstart k hm).2, hc]
      have := hl.nested k hm
      simp only
      omega
  case nested =>
    intro k hk
    cases List.mem_append.mp hk
    case inl hk =>
      have := hl.nested k hk
      rw [(hstart k hk).1, (hstart k hk).2, hp]
      simp only
      omega
    case inr hk =>
      have hk := List.mem_singleton.mp hk
      subst hk
      rw [hc, hp]
      simp only
      omega
  case sorted =>
    refine List.isChain_append.mpr ⟨hl.sorted, List.isChain_singleton child, ?_⟩
    intro k hk k' hk'
    cases hk'
    exact hlt k (List.mem_of_mem_getLast? hk)

-- The innermost open node is ended.
theorem pop_node {child parent : Nat}
    (h : Building nodes num_nodes bound (child :: parent :: path) children) {stop bound' : Nat}
    (hs : (nodes child).start < stop) (he : (nodes child).stop ≤ stop) (hb : bound ≤ bound')
    (hs' : stop ≤ bound') :
    Building (pop_node nodes child parent stop) num_nodes bound' (parent :: path)
      (Function.update children parent (children parent ++ [child])) := by
  have hcl := h.path_lt child (List.mem_cons_self ..)
  have hpm : parent ∈ child :: parent :: path := by simp
  have hpl := h.path_lt parent hpm
  have hcp : child ≠ parent := (Nat.ne_of_lt (h.top_lt parent (List.mem_cons_self ..))).symm
  have hlast : ∀ {k}, (nodes parent).last_child = some k →
      k ≠ child ∧ k ≠ parent ∧ k ∉ path := by
    intro k hk
    have := (h.of_child (h.last_child_mem hpl hk)).2.2
    simpa using this
  have hpn : parent ∉ path := (List.nodup_cons.mp
    (List.nodup_cons.mp (h.decreasing.pairwise.imp fun h => Nat.ne_of_gt h)).2).1
  have hc : SiblingTree.pop_node nodes child parent stop child = { nodes child with stop := stop } := by
    simp [SiblingTree.pop_node]
  have hp : SiblingTree.pop_node nodes child parent stop parent = { nodes parent with
      last_child := some child, num_children := (nodes parent).num_children + 1, stop := stop } := by
    simp [SiblingTree.pop_node, hcp.symm]
  have hpath : ∀ {k}, k ∈ path → SiblingTree.pop_node nodes child parent stop k = nodes k := by
    intro k hk
    have hc : k ≠ child := Nat.ne_of_lt (h.top_lt k (List.mem_cons_of_mem _ hk))
    have hp : k ≠ parent := fun he => hpn (he ▸ hk)
    have hl : (nodes parent).last_child ≠ some k := fun hk' => (hlast hk').2.2 hk
    simp [SiblingTree.pop_node, hc, hp, hl]
  -- Of a node that is not open only the link to its next sibling may change.
  have hkid : ∀ {k}, k ∉ child :: parent :: path →
      (SiblingTree.pop_node nodes child parent stop k).parent = (nodes k).parent ∧
      (SiblingTree.pop_node nodes child parent stop k).start = (nodes k).start ∧
      (SiblingTree.pop_node nodes child parent stop k).stop = (nodes k).stop ∧
      ((nodes parent).last_child ≠ some k →
        SiblingTree.pop_node nodes child parent stop k = nodes k) ∧
      ((nodes parent).last_child = some k →
        (SiblingTree.pop_node nodes child parent stop k).next_sibling = some child) := by
    intro k hk
    simp only [List.mem_cons, not_or] at hk
    obtain ⟨hc, hp, _⟩ := hk
    by_cases hl : (nodes parent).last_child = some k
    · simp [SiblingTree.pop_node, hc, hp, hl]
    · simp [SiblingTree.pop_node, hc, hp, hl]
  obtain ⟨hopen, hnx, hlt⟩ := h.open_child (child_on_path_cons_self child parent path)
  obtain ⟨hst, hsp⟩ := h.opened parent hpm
  have hkids : ∀ {i k}, k ∈ children i → i ≠ parent →
      SiblingTree.pop_node nodes child parent stop k = nodes k := by
    intro i k hk hi
    obtain ⟨_, hpk, hm⟩ := h.of_child hk
    refine (hkid hm).2.2.2.1 fun hl => hi ?_
    have := (h.of_child (h.last_child_mem hpl hl)).2.1
    exact Option.some.inj (hpk.symm.trans this)
  constructor
  case root => simpa using h.root
  case root_parent =>
    by_cases h₀ : (0 : Nat) ∈ child :: parent :: path
    · simp only [List.mem_cons] at h₀
      obtain h₀ | h₀ | h₀ := h₀
      · rw [h₀, hc, ← h₀]
        exact h.root_parent
      · rw [h₀, hp, ← h₀]
        exact h.root_parent
      · rw [hpath h₀]
        exact h.root_parent
    · rw [(hkid h₀).1]
      exact h.root_parent
  case decreasing => exact h.decreasing.tail
  case path_lt => exact fun i hi => h.path_lt i (List.mem_cons_of_mem _ hi)
  case parents =>
    refine h.parents.tail.imp_of_mem_imp fun c p hm _ he => ?_
    cases List.mem_cons.mp hm
    case inl hm =>
      subst hm
      rw [hp]
      exact he
    case inr hm =>
      rw [hpath hm]
      exact he
  case opened =>
    intro i hi
    cases List.mem_cons.mp hi
    case inl hi =>
      subst hi
      rw [hp]
      exact ⟨by simp; omega, hs'⟩
    case inr hi =>
      have := h.opened i (List.mem_cons_of_mem _ (List.mem_cons_of_mem _ hi))
      rw [hpath hi]
      omega
  case open_child =>
    intro i c hic
    have hi : i ∈ path := child_on_path_tail hic
    have hip : i ≠ parent := fun he => hpn (he ▸ hi)
    have ho := h.open_child ((child_on_path_cons_ne hip _).trans hic)
    have hcs : (SiblingTree.pop_node nodes child parent stop c).start = (nodes c).start ∧
        (SiblingTree.pop_node nodes child parent stop c).next_sibling = (nodes c).next_sibling := by
      cases List.mem_cons.mp (child_on_path_mem hic).2
      case inl hcm =>
        subst hcm
        simp [hp]
      case inr hcm => simp [hpath hcm]
    rw [hpath hi, hcs.1, hcs.2, Function.update_of_ne hip]
    exact ho
  case linked =>
    intro i hi
    by_cases hip : i = parent
    · subst hip
      rw [Function.update_self, child_on_path_top hpn]
      exact h.linked_parent hs hst
    · rw [Function.update_of_ne hip]
      have hl := h.linked i hi
      rw [child_on_path_cons_ne hip] at hl
      have hk : ∀ k ∈ children i, SameChild nodes (SiblingTree.pop_node nodes child parent stop) k :=
        fun k hm => .of_eq (hkids hm hip)
      by_cases hic : i = child
      · subst hic
        exact hl.congr (by rw [hc]) (by rw [hc, ← hl.first]) (by rw [hc]) (by rw [hc])
          (by rw [hc]; exact he) (.inr rfl) hk
      · by_cases hla : (nodes parent).last_child = some i
        · have hf : SiblingTree.pop_node nodes child parent stop i =
              { nodes i with next_sibling := some child } := by
            simp [SiblingTree.pop_node, hip, hic, hla]
          exact hl.congr (by rw [hf]) (by rw [hf, ← hl.first]) (by rw [hf]) (by rw [hf])
            (by rw [hf]) (.inr rfl) hk
        · have hf : SiblingTree.pop_node nodes child parent stop i = nodes i := by
            simp [SiblingTree.pop_node, hip, hic, hla]
          exact hl.congr (by rw [hf]) (by rw [hf, ← hl.first]) (by rw [hf]) (by rw [hf])
            (by rw [hf]) (.inr rfl) hk
  case outside =>
    intro i hi
    rw [Function.update_of_ne (by omega)]
    exact h.outside i hi
  case of_child =>
    intro i k hk
    by_cases hip : i = parent
    · subst hip
      rw [Function.update_self] at hk
      cases List.mem_append.mp hk
      case inl hk =>
        obtain ⟨hkl, hpk, hm⟩ := h.of_child hk
        exact ⟨hkl, (hkid hm).1.trans hpk, fun hm' => hm (List.mem_cons_of_mem _ hm')⟩
      case inr hk =>
        have hk := List.mem_singleton.mp hk
        subst hk
        refine ⟨hcl, ?_, h.top_not_mem⟩
        rw [hc]
        exact (List.isChain_cons_cons.mp h.parents).1
    · rw [Function.update_of_ne hip] at hk
      obtain ⟨hkl, hpk, hm⟩ := h.of_child hk
      exact ⟨hkl, (hkid hm).1.trans hpk, fun hm' => hm (List.mem_cons_of_mem _ hm')⟩
  case parent_lt =>
    intro i k hk
    by_cases hip : i = parent
    · subst hip
      rw [Function.update_self] at hk
      cases List.mem_append.mp hk
      case inl hk => exact h.parent_lt hk
      case inr hk =>
        rw [List.mem_singleton.mp hk]
        exact h.top_lt i (List.mem_cons_self ..)
    · rw [Function.update_of_ne hip] at hk
      exact h.parent_lt hk
  case child =>
    intro k hk hm
    by_cases hkc : k = child
    · exact ⟨parent, by simp [hkc]⟩
    · obtain ⟨i, hi⟩ := h.child hk fun hm' => (List.mem_cons.mp hm').elim hkc hm
      by_cases hip : i = parent
      · subst hip
        exact ⟨i, by simp [hi]⟩
      · exact ⟨i, by rwa [Function.update_of_ne hip]⟩

-- The last child so far may be linked to the open one that comes next.
theorem link_next {child parent k : Nat}
    (h : Building nodes num_nodes bound (child :: parent :: path) children)
    (hk : k ∈ (children parent).getLast?) :
    Building (Function.update nodes k { nodes k with next_sibling := some child }) num_nodes bound
      (child :: parent :: path) children := by
  have hkm := List.mem_of_mem_getLast? hk
  obtain ⟨_, hkp, hkn⟩ := h.of_child hkm
  have hpath : ∀ i ∈ child :: parent :: path,
      Function.update nodes k { nodes k with next_sibling := some child } i = nodes i := fun i hi =>
    Function.update_of_ne (fun (he : i = k) => hkn (he ▸ hi)) ..
  have hfields : ∀ i,
      (Function.update nodes k { nodes k with next_sibling := some child } i) =
        { nodes i with next_sibling :=
          (Function.update nodes k { nodes k with next_sibling := some child } i).next_sibling } := by
    intro i
    by_cases hi : i = k
    · subst hi
      simp
    · simp [hi]
  have hkid : ∀ {i k'}, k' ∈ children i → i ≠ parent →
      Function.update nodes k { nodes k with next_sibling := some child } k' = nodes k' := by
    intro i k' hk' hi
    refine Function.update_of_ne (fun he => hi ?_) ..
    have := (h.of_child hk').2.1
    rw [he] at this
    exact Option.some.inj (this.symm.trans hkp)
  constructor
  case root => exact h.root
  case root_parent =>
    rw [hfields]
    exact h.root_parent
  case decreasing => exact h.decreasing
  case path_lt => exact h.path_lt
  case parents =>
    refine h.parents.imp fun c p he => ?_
    rw [hfields]
    exact he
  case opened =>
    intro i hi
    rw [hpath i hi]
    exact h.opened i hi
  case open_child =>
    intro i c hc
    obtain ⟨hi, hc'⟩ := child_on_path_mem hc
    rw [hpath i hi, hpath c hc']
    exact h.open_child hc
  case linked =>
    intro i hi
    have hl := h.linked i hi
    by_cases hip : i = parent
    · subst hip
      rw [child_on_path_cons_self] at hl ⊢
      constructor
      case num =>
        rw [hfields]
        exact hl.num
      case first =>
        rw [hfields]
        exact hl.first
      case last =>
        rw [hfields]
        exact hl.last
      case next =>
        refine hl.next.imp_of_mem_imp fun a b _ hb he => ?_
        by_cases ha : a = k
        · subst ha
          match hl.stops a hk with
          | .inl hn => cases hn.symm.trans he
          | .inr hn =>
            have := (h.of_child hb).2.2
            simp [Option.some.inj (hn.symm.trans he)] at this
        · rw [Function.update_of_ne ha]
          exact he
      case stops =>
        intro k' hk'
        cases hk.symm.trans hk'
        simp
      case disjoint =>
        refine hl.disjoint.imp fun a b he => ?_
        rw [hfields a, hfields b]
        exact he
      case nested =>
        intro k' hk'
        rw [hfields i, hfields k']
        exact hl.nested k' hk'
      case sorted => exact hl.sorted
    · refine hl.congr ?_ ?_ ?_ ?_ ?_ (.inr rfl) fun k' hk' => .of_eq (hkid hk' hip)
      · rw [hfields]
      · rw [hfields, ← hl.first]
      · rw [hfields]
      · rw [hfields]
      · rw [hfields]
  case outside => exact h.outside
  case of_child =>
    intro i k' hk'
    rw [hfields]
    exact h.of_child hk'
  case parent_lt => exact h.parent_lt
  case child => exact h.child

end Building

-- All nodes that have a node as their parent, from the first to the last one.
def children_of (nodes : Nat → IntervalNode) (num_nodes i : Nat) : List Nat :=
  (List.range num_nodes).filter fun k => (nodes k).parent = some i

-- Every node is linked to exactly those nodes that have it as their parent.
def Consistent (nodes : Nat → IntervalNode) (num_nodes : Nat) : Prop :=
  ∀ i < num_nodes, Linked nodes i (children_of nodes num_nodes i) none

namespace Building

theorem children_eq (h : Building nodes num_nodes bound [0] children) {i : Nat}
    (hi : i < num_nodes) : children i = children_of nodes num_nodes i := by
  have hs : (children i).Pairwise (· < ·) := (h.linked i hi).sorted.pairwise
  have hs' : (children_of nodes num_nodes i).Pairwise (· < ·) :=
    List.Pairwise.filter _ (List.pairwise_lt_range)
  refine List.Perm.eq_of_pairwise (fun a b _ _ hab hba => absurd hab (Nat.lt_asymm hba)) hs hs' ?_
  refine (List.perm_ext_iff_of_nodup (hs.imp Nat.ne_of_lt) (hs'.imp Nat.ne_of_lt)).mpr fun k => ?_
  simp only [children_of, List.mem_filter, List.mem_range, decide_eq_true_eq]
  constructor
  · intro hk
    obtain ⟨hkl, hp, _⟩ := h.of_child hk
    exact ⟨hkl, hp⟩
  · rintro ⟨hkl, hp⟩
    have hk₀ : k ∉ [0] := fun hm => by
      rw [List.mem_singleton.mp hm, h.root_parent] at hp
      cases hp
    obtain ⟨i', hi'⟩ := h.child hkl hk₀
    have := (h.of_child hi').2.1
    rw [hp] at this
    cases this
    exact hi'

theorem consistent (h : Building nodes num_nodes bound [0] children) :
    Consistent nodes num_nodes := by
  intro i hi
  rw [← h.children_eq hi]
  have hl := h.linked i hi
  match i, hl with
  | 0, hl => exact hl
  | i + 1, hl => exact hl

end Building

end

end SiblingTree
