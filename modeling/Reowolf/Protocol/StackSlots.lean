import Reowolf.Protocol.PromptControl
import Reowolf.Protocol.SlotAssignment

namespace Reowolf

-- A procedure that the pass accepts, with the heap that it makes.
structure AcceptedProcedure extends ParsedProcedure where
  final    : Heap
  accepted : visit_definition ctx definition heap = .ok final

-- The blocks in a body, with the blocks that are around them.
inductive BlockOf.Contains (body : BlockStatement) : Path → BlockStatement → Prop
  | here : Contains body [] body
  | nested {path : Path} {outer inner : BlockStatement} {pos : Nat} :
    Contains body path outer → (pos, inner) ∈ outer.nested →
    Contains body ((outer, pos) :: path) inner

-- The parameters, and the locals of the blocks around a place that are not declared after it.
def Names.visible (names : Names) (parameters : List VariableId) : Path → List VariableId
  | [] => parameters
  | (outer, pos) :: path =>
    ((names.locals outer.this).filter fun id => (names.get id).relative_pos_in_block ≤ pos) ++
      visible names parameters path

def Heap.unique_id (heap : Heap) (id : VariableId) : Nat := (heap.names.get id).unique_id_in_scope

theorem BlockOf.Contains.mem {body inner : BlockStatement} {path : Path}
    (h : body.Contains path inner) : inner ∈ body.blocks := by
  induction h
  case here => simp
  case nested hn ih => exact LocalIds.closed_block body _ ih _ hn

theorem Statement.listDeclares_ge {stmts : List Statement} {pos : Nat} {x : VariableId × Nat}
    (h : x ∈ Statement.listDeclares pos stmts) : pos ≤ x.2 := by
  induction stmts generalizing pos
  case nil => cases h
  case cons stmt stmts ih =>
    cases List.mem_append.mp h
    case inl h =>
      obtain ⟨_, _, he⟩ := List.mem_map.mp h
      exact he ▸ Nat.le_refl _
    case inr h => exact Nat.le_trans (Nat.le_add_right ..) (ih h)

theorem Statement.listDeclares_sorted (stmts : List Statement) (pos : Nat) :
    (Statement.listDeclares pos stmts).Pairwise (·.2 ≤ ·.2) := by
  induction stmts generalizing pos
  case nil => exact .nil
  case cons stmt stmts ih =>
    refine List.pairwise_append.mpr ⟨?_, ih _, ?_⟩
    · refine List.pairwise_map.mpr (List.pairwise_of_forall ?_)
      exact fun _ _ => Nat.le_refl _
    · intro x hx y hy
      obtain ⟨_, _, he⟩ := List.mem_map.mp hx
      subst he
      exact Nat.le_trans (Nat.le_add_right ..) (Statement.listDeclares_ge hy)

section

variable {names names' : Names} {body : BlockStatement}

-- The pass records the locals of a block in the order of their positions.
theorem Names.Records.sorted (h : names.Records body) :
    (names.locals body.this).Pairwise fun id id' =>
      (names.get id).relative_pos_in_block ≤ (names.get id').relative_pos_in_block := by
  obtain ⟨bound, he, hb⟩ := h.locals
  rw [he]
  refine List.pairwise_append.mpr ⟨?_, ?_, ?_⟩
  · refine List.Pairwise.imp_of_mem (R := fun _ _ => True) ?_ (List.pairwise_of_forall (by simp))
    intro id id' hi _ _
    rw [hb id hi]
    exact Nat.zero_le _
  · refine List.pairwise_map.mpr (List.Pairwise.imp_of_mem ?_ (Statement.listDeclares_sorted _ 0))
    intro x y hx hy hle
    rw [h.pos x hx, h.pos y hy]
    exact hle
  · intro id hi id' _
    rw [hb id hi]
    exact Nat.zero_le _

theorem Names.Grows.lists {bound : List VariableId} {blocks : List BlockStatement}
    (h : Names.Grows bound blocks names names') (hd : (blocks.map BlockOf.this).Nodup) :
    names'.Lists blocks where
  distinct          := hd
  nodup             := h.nodup
  allocated body hb := (h.records body hb).allocated
  sorted body hb    := (h.records body hb).sorted

-- The locals of a block that are declared at a position or before it come first.
theorem Names.filter_declared {locals : List VariableId} (pos : Nat)
    (hs : locals.Pairwise fun id id' =>
      (names.get id).relative_pos_in_block ≤ (names.get id').relative_pos_in_block) :
    (locals.filter fun id => (names.get id).relative_pos_in_block ≤ pos) =
      locals.take (names.declared_until locals pos) := by
  induction locals
  case nil => rfl
  case cons id locals ih =>
    obtain ⟨hle, hs⟩ := List.pairwise_cons.mp hs
    simp only [Names.declared_until] at ih ⊢
    by_cases hp : (names.get id).relative_pos_in_block ≤ pos
    case pos =>
      rw [List.filter_cons_of_pos (by simpa using hp), List.countP_cons_of_pos (by simpa using hp),
        List.take_succ_cons, ih hs]
    case neg =>
      have hall : ∀ id' ∈ locals, ¬(names.get id').relative_pos_in_block ≤ pos :=
        fun id' hi hp' => hp (Nat.le_trans (hle id' hi) hp')
      rw [List.filter_cons_of_neg (by simpa using hp), List.countP_cons_of_neg (by simpa using hp),
        List.filter_eq_nil_iff.mpr (by simpa using hall), List.countP_eq_zero.mpr (by simpa using hall)]
      rfl

end

section

variable {heap : Heap} {body inner : BlockStatement} {path : Path} {parameters : List VariableId}

-- The ids of what is visible at the start of a block are different, and smaller than those in it.
theorem Heap.visible_slots (hp : parameters.map heap.unique_id = List.range' 0 parameters.length)
    (hf : heap.first_unique_id_in_scope body.this = parameters.length)
    (ha : ∀ nested ∈ body.blocks, heap.Allocates nested)
    (hs : ∀ nested ∈ body.blocks, (heap.names.locals nested.this).Pairwise fun id id' =>
      (heap.names.get id).relative_pos_in_block ≤ (heap.names.get id').relative_pos_in_block)
    (hc : body.Contains path inner) :
    ((heap.names.visible parameters path).map heap.unique_id).Nodup ∧
      ∀ id ∈ heap.names.visible parameters path,
        heap.unique_id id < heap.first_unique_id_in_scope inner.this := by
  induction hc
  case here =>
    refine ⟨by rw [Names.visible, hp]; exact List.nodup_range', fun id hi => ?_⟩
    have hm := List.mem_map_of_mem (f := heap.unique_id) hi
    rw [Names.visible, hp, List.mem_range'_1] at hm
    rw [hf]
    omega
  case nested path outer inner pos hc hn ih =>
    obtain ⟨hnodup, hlt⟩ := ih
    have hids := (ha outer hc.mem).ids
    have hfirst := (ha outer hc.mem).nested _ hn
    have hle : heap.names.declared_until (heap.names.locals outer.this) pos ≤
        (heap.names.locals outer.this).length := List.countP_le_length
    have hmap : ((heap.names.locals outer.this).filter fun id =>
        (heap.names.get id).relative_pos_in_block ≤ pos).map heap.unique_id =
        List.range' (heap.first_unique_id_in_scope outer.this)
          (heap.names.declared_until (heap.names.locals outer.this) pos) := by
      rw [Names.filter_declared pos (hs outer hc.mem), List.map_take]
      have hids : (heap.names.locals outer.this).map heap.unique_id = _ := hids
      rw [hids, List.take_range'_of_length_ge hle]
    simp only [Names.visible, List.map_append, hmap]
    constructor
    · rw [List.nodup_append']
      refine ⟨List.nodup_range', hnodup, fun n hn hm => ?_⟩
      obtain ⟨id, hi, he⟩ := List.mem_map.mp hm
      have := hlt id hi
      have := (List.mem_range'_1.mp hn).1
      omega
    · intro id hi
      rw [hfirst]
      cases List.mem_append.mp hi
      case inl hi =>
        have hm := List.mem_map_of_mem (f := heap.unique_id) hi
        rw [hmap, List.mem_range'_1] at hm
        exact hm.2
      case inr hi => exact Nat.lt_add_right _ (hlt id hi)

mutual

theorem Heap.le_stmt_max_stack_size (heap : Heap) {inner : BlockStatement} : (stmt : Statement) →
    inner ∈ stmt.blocks → heap.next_unique_id_in_scope inner.this ≤ heap.stmt_max_stack_size stmt
  | .block body, h | .while _ _ body _, h | .synchronous _ body _, h => by
    simp only [Statement.blocks] at h
    simp only [Heap.stmt_max_stack_size]
    exact heap.le_max_stack_size body h
  | .labeled _ _ body, h => by
    simp only [Statement.blocks] at h
    simp only [Heap.stmt_max_stack_size]
    exact heap.le_stmt_max_stack_size body h
  | .if _ _ true_body false_body _, h => by
    simp only [Statement.blocks] at h
    simp only [Heap.stmt_max_stack_size]
    cases List.mem_append.mp h
    case inl h => exact Nat.le_trans (heap.le_max_stack_size true_body h) (Nat.le_max_left ..)
    case inr h =>
      exact Nat.le_trans (heap.le_option_max_stack_size false_body h) (Nat.le_max_right ..)
  | .memory .., h | .channel .., h | .break .., h | .continue .., h | .return .., h | .goto .., h
  | .new .., h | .expression .., h => by
    simp only [Statement.blocks] at h
    cases h

theorem Heap.le_max_stack_size (heap : Heap) {inner : BlockStatement} : (body : BlockStatement) →
    inner ∈ body.blocks →
    heap.next_unique_id_in_scope inner.this ≤ heap.determine_max_stack_size body
  | ⟨this, statements, end_block⟩, h => by
    rw [BlockOf.blocks_eq] at h
    simp only [Heap.determine_max_stack_size]
    cases List.mem_cons.mp h
    case inl he => exact he ▸ Nat.le_max_left ..
    case inr h =>
      exact Nat.le_trans (heap.le_stmts_max_stack_size statements h) (Nat.le_max_right ..)

theorem Heap.le_stmts_max_stack_size (heap : Heap) {inner : BlockStatement} :
    (stmts : List Statement) → inner ∈ Statement.listBlocks stmts →
    heap.next_unique_id_in_scope inner.this ≤ heap.stmts_max_stack_size stmts
  | [], h => by
    rw [Statement.listBlocks_nil] at h
    cases h
  | stmt :: stmts, h => by
    rw [Statement.listBlocks_cons] at h
    simp only [Heap.stmts_max_stack_size]
    cases List.mem_append.mp h
    case inl h => exact Nat.le_trans (heap.le_stmt_max_stack_size stmt h) (Nat.le_max_left ..)
    case inr h => exact Nat.le_trans (heap.le_stmts_max_stack_size stmts h) (Nat.le_max_right ..)

theorem Heap.le_option_max_stack_size (heap : Heap) {inner : BlockStatement} :
    (body : Option BlockStatement) → inner ∈ BlockOf.optionBlocks body →
    heap.next_unique_id_in_scope inner.this ≤ heap.option_max_stack_size body
  | none, h => by
    simp only [BlockOf.optionBlocks] at h
    cases h
  | some body, h => by
    simp only [BlockOf.optionBlocks] at h
    simp only [Heap.option_max_stack_size]
    exact heap.le_max_stack_size body h

end

theorem assign_parameter_ids_spec {ids : List VariableId} (var_counter : Nat) {heap : Heap}
    (hn : ids.Nodup) (ha : ∀ id ∈ ids, id < heap.names.arena.length) :
    Heap.Assigns ids [] heap (assign_parameter_ids ids var_counter heap) ∧
      ids.map (assign_parameter_ids ids var_counter heap).unique_id =
        List.range' var_counter ids.length := by
  induction ids generalizing var_counter heap
  case nil => exact ⟨.refl heap, rfl⟩
  case cons id ids ih =>
    have hs := Heap.Assigns.set_unique_id heap id var_counter
    obtain ⟨hid, hn⟩ := List.nodup_cons.mp hn
    have ha' : ∀ id' ∈ ids, id' < (heap.set_unique_id id var_counter).names.arena.length :=
      fun id' hi => hs.length ▸ ha id' (List.mem_cons_of_mem _ hi)
    obtain ⟨hi, hids⟩ := ih (var_counter + 1) hn ha'
    refine ⟨hs.trans hi, ?_⟩
    rw [List.map_cons, List.length_cons, List.range'_succ, assign_parameter_ids, hids]
    congr 1
    rw [Heap.unique_id, hi.kept id hid, Heap.set_unique_id_get (ha id (List.mem_cons_self ..))]

namespace AcceptedProcedure

variable (p : AcceptedProcedure)

-- What the pass records, and the ids that it then gives.
theorem slots :
    (∀ nested ∈ p.definition.body.blocks, p.final.names.Records nested) ∧
      (∀ nested ∈ p.definition.body.blocks, p.final.Allocates nested) ∧
      p.final.first_unique_id_in_scope p.definition.body.this = p.definition.parameters.length ∧
      p.definition.parameters.map p.final.unique_id =
        List.range' 0 p.definition.parameters.length := by
  have h := p.accepted
  simp only [visit_definition, Except.bind_eq_ok] at h
  obtain ⟨σ, hv, hfinal⟩ := h
  simp only [Except.ok.injEq] at hfinal
  obtain ⟨hnparams, _, hapart⟩ := List.nodup_append'.mp p.nodup
  -- The ids that the parameters get first.
  obtain ⟨hbefore, _⟩ := assign_parameter_ids_spec 0 hnparams p.allocated
  have hfresh := p.fresh.of_eq hbefore.length hbefore.locals
  have hg := visit_block_stmt_grows p.definition.body (t := .new p.definition) rfl
    (.of_fresh (hfresh.of_eq rfl rfl)) hv
  have hlists := hg.lists p.fresh.distinct
  -- The ids that they get after the visit.
  have hlen : (assign_parameter_ids p.definition.parameters 0 p.heap).names.arena.length ≤
      σ.names.arena.length := hg.length
  have hallocated : ∀ id ∈ p.definition.parameters, id < σ.names.arena.length :=
    fun id hi => Nat.lt_of_lt_of_le (p.allocated id hi) (hbefore.length ▸ hlen)
  generalize hheap : ({ σ.toHeap with
    num_expressions_in_body := Function.update σ.num_expressions_in_body p.definition.this
      σ.names.next_expr_index } : Heap) = heap at hfinal
  have hnames : heap.names = σ.names := hheap ▸ rfl
  rw [← hnames] at hlists hallocated hg
  obtain ⟨hparams, hids⟩ := assign_parameter_ids_spec 0 hnparams hallocated
  have hslots : Heap.Slots p.definition.body p.definition.parameters.length _ _ :=
    visit_block_slots p.definition.body (hparams.lists hlists)
  rw [visit_definition_and_assign_local_ids] at hfinal
  rw [hfinal] at hslots
  refine ⟨fun nested hn => ?_, hslots.allocates, hslots.first, ?_⟩
  · exact hslots.assigns.records (hparams.records (hg.records nested hn))
  · rw [← hids]
    refine List.map_congr_left fun id hi => ?_
    rw [Heap.unique_id, Heap.unique_id, hslots.assigns.kept id]
    -- No parameter is a local of a block.
    rw [hparams.listed]
    intro hm
    obtain ⟨nested, hn, hm⟩ := List.mem_flatMap.mp hm
    rcases hg.mem nested hn id hm with hm | hm | hm
    · cases hm
    · exact hapart hi hm
    · exact Nat.not_lt_of_ge hm.1 (hbefore.length ▸ p.allocated id hi)

end AcceptedProcedure

end

namespace Store

variable {store store' : Store} {pos : HeapPos}

theorem drop_elements_stack {drop : Store → HeapPos → Except Fault Store}
    (hd : ∀ {store store' : Store} {pos : HeapPos}, drop store pos = .ok store' →
      store'.stack = store.stack ∧ store'.cur_stack_boundary = store.cur_stack_boundary)
    {idxs : List Nat} (h : drop_elements drop pos idxs store = .ok store') :
    store'.stack = store.stack ∧ store'.cur_stack_boundary = store.cur_stack_boundary := by
  induction idxs generalizing store
  case nil =>
    cases h
    exact ⟨rfl, rfl⟩
  case cons idx idxs ih =>
    simp only [drop_elements, Except.bind_eq_ok] at h
    obtain ⟨value, _, h⟩ := h
    split at h
    case h_2 => exact ih h
    case h_1 =>
      simp only [Except.bind_eq_ok] at h
      obtain ⟨store₁, h₁, h₂⟩ := h
      obtain ⟨hs₁, hb₁⟩ := hd h₁
      obtain ⟨hs, hb⟩ := ih h₂
      exact ⟨hs.trans hs₁, hb.trans hb₁⟩

theorem drop_heap_pos_at_stack {depth : Nat} (h : drop_heap_pos_at depth store pos = .ok store') :
    store'.stack = store.stack ∧ store'.cur_stack_boundary = store.cur_stack_boundary := by
  induction depth generalizing store store' pos
  case zero => cases h
  case succ depth ih =>
    simp only [drop_heap_pos_at, Except.bind_eq_ok] at h
    obtain ⟨values, _, store₁, h₁, _, _, h₂⟩ := h
    cases h₂
    have hd : ∀ {store store' : Store} {pos : HeapPos}, drop_heap_pos_at depth store pos = .ok store' →
        store'.stack = store.stack ∧ store'.cur_stack_boundary = store.cur_stack_boundary := ih
    have h := drop_elements_stack hd h₁
    exact h

theorem drop_value_stack {pos : Option HeapPos} (h : store.drop_value pos = .ok store') :
    store'.stack = store.stack ∧ store'.cur_stack_boundary = store.cur_stack_boundary := by
  cases pos
  case none =>
    cases h
    exact ⟨rfl, rfl⟩
  case some => exact drop_heap_pos_at_stack h

theorem clear_slots_stack {first count : Nat}
    (h : clear_slots (List.range' first count) store = .ok store') :
    store'.cur_stack_boundary = store.cur_stack_boundary ∧ ∀ idx,
      store'.stack[idx]? = if first ≤ idx ∧ idx < first + count then
        store.stack[idx]?.map fun _ => .unassigned else store.stack[idx]? := by
  induction count generalizing first store
  case zero =>
    cases h
    refine ⟨rfl, fun idx => ?_⟩
    rw [if_neg (by omega)]
  case succ count ih =>
    rw [List.range'_succ] at h
    simp only [clear_slots, Except.bind_eq_ok] at h
    obtain ⟨value, _, store₁, h₁, h₂⟩ := h
    obtain ⟨hs, hb⟩ := drop_value_stack h₁
    obtain ⟨hb', hslots⟩ := ih h₂
    refine ⟨hb'.trans hb, fun idx => ?_⟩
    rw [hslots idx]
    simp only [hs, List.getElem?_set]
    by_cases hi : first = idx
    · subst hi
      have hhere : first ≤ first ∧ first < first + (count + 1) := by omega
      rw [if_neg (by omega), if_pos hhere, if_pos rfl]
      split
      case isTrue hl => rw [List.getElem?_eq_getElem hl, Option.map_some]
      case isFalse hl => rw [List.getElem?_eq_none (Nat.le_of_not_lt hl), Option.map_none]
    · rw [if_neg hi]
      by_cases hr : first + 1 ≤ idx ∧ idx < first + 1 + count
      · rw [if_pos hr, if_pos (by omega)]
      · rw [if_neg hr, if_neg (by omega)]

-- The slots from the given one on are cleared.
theorem clear_stack_read {unique_stack_idx : Nat}
    (h : store.clear_stack unique_stack_idx = .ok store') (slot : Nat) :
    store'.read_stack (store'.abs_pos slot) = if unique_stack_idx ≤ slot then
      (store.read_stack (store.abs_pos slot)).map fun _ => .unassigned
      else store.read_stack (store.abs_pos slot) := by
  obtain ⟨hb, hslots⟩ := clear_slots_stack h
  simp only [read_stack, abs_pos, hb, hslots]
  by_cases hs : unique_stack_idx ≤ slot
  case neg => rw [if_neg hs, if_neg (by omega)]
  case pos =>
    rw [if_pos hs]
    by_cases hl : store.cur_stack_boundary + 1 + slot < store.stack.length
    · rw [if_pos (by omega), List.getElem?_eq_getElem hl]
      rfl
    · rw [List.getElem?_eq_none (Nat.le_of_not_lt hl)]
      simp only [Option.map_none, ite_self]
      rfl

end Store

-- The ids of a block and of what is visible at its start are different places in the stack frame, and
-- the end of the block clears those of its own locals.
theorem AcceptedProcedure.stack_slots (p : AcceptedProcedure) {path : Path} {inner : BlockStatement}
    (hc : p.definition.body.Contains path inner) :
    let locals  := p.final.names.locals inner.this
    let visible := p.final.names.visible p.definition.parameters path
    let first   := p.final.first_unique_id_in_scope inner.this
    ((locals ++ visible).map p.final.unique_id).Nodup ∧
      (∀ id ∈ locals ++ visible,
        p.final.unique_id id < p.final.determine_max_stack_size p.definition.body) ∧
      (∀ id ∈ locals, first ≤ p.final.unique_id id ∧
        p.final.unique_id id < p.final.next_unique_id_in_scope inner.this) ∧
      ∀ store store' : Store, store.clear_stack first = .ok store' → ∀ id ∈ locals ++ visible,
        store'.read_stack (store'.abs_pos (p.final.unique_id id)) =
          if id ∈ locals then
            (store.read_stack (store.abs_pos (p.final.unique_id id))).map fun _ => .unassigned
          else store.read_stack (store.abs_pos (p.final.unique_id id)) := by
  intro locals visible first
  obtain ⟨hrecords, hallocates, hfirst, hparams⟩ := p.slots
  have ha := hallocates inner hc.mem
  obtain ⟨hnodup, hvisible⟩ := Heap.visible_slots hparams hfirst hallocates
    (fun nested hn => (hrecords nested hn).sorted) hc
  have hids : locals.map p.final.unique_id = List.range' first locals.length := ha.ids
  have hlocals : ∀ id ∈ locals, first ≤ p.final.unique_id id ∧
      p.final.unique_id id < p.final.next_unique_id_in_scope inner.this := by
    intro id hi
    have hm := List.mem_map_of_mem (f := p.final.unique_id) hi
    rw [hids, List.mem_range'_1] at hm
    rw [ha.next]
    exact hm
  have hmax : p.final.next_unique_id_in_scope inner.this ≤
      p.final.determine_max_stack_size p.definition.body := p.final.le_max_stack_size _ hc.mem
  have hfirst_next : first ≤ p.final.next_unique_id_in_scope inner.this :=
    ha.next ▸ Nat.le_add_right ..
  refine ⟨?_, ?_, hlocals, ?_⟩
  · rw [List.map_append, hids, List.nodup_append']
    refine ⟨List.nodup_range', hnodup, fun n hn hm => ?_⟩
    obtain ⟨id, hi, he⟩ := List.mem_map.mp hm
    exact Nat.not_lt_of_ge (List.mem_range'_1.mp hn).1 (he ▸ hvisible id hi)
  · intro id hi
    cases List.mem_append.mp hi
    case inl hi => exact Nat.lt_of_lt_of_le (hlocals id hi).2 hmax
    case inr hi =>
      exact Nat.lt_of_lt_of_le (hvisible id hi) (Nat.le_trans hfirst_next hmax)
  · intro store store' hclear id hi
    rw [Store.clear_stack_read hclear]
    by_cases hl : id ∈ locals
    case pos => rw [if_pos hl, if_pos (hlocals id hl).1]
    case neg =>
      have hv := hvisible id ((List.mem_append.mp hi).resolve_left hl)
      rw [if_neg hl, if_neg (Nat.not_le_of_gt hv)]

-- `primitive p() { { u32 a; } u32 b; }`.
def Definition.reuses_slot : Definition where
  this       := 0
  kind       := .primitive
  parameters := []
  body       := ⟨0, [.block ⟨1, [.memory 2 0], 3⟩, .memory 4 1], 5⟩

def ParsedProcedure.reuses_slot : ParsedProcedure where
  ctx        := .of_component
  definition := .reuses_slot
  heap       := .parsed (.parsed [⟨"a", 0, 0⟩, ⟨"b", 0, 0⟩])
  fresh      := ⟨by decide, by decide, by decide, by simp [Heap.parsed, Names.parsed]⟩
  labels     := by simp [Heap.parsed]
  nodup      := by decide
  allocated  := by decide

-- The block in it, and what is around that.
theorem Definition.reuses_slot_contains :
    Definition.reuses_slot.body.Contains [(Definition.reuses_slot.body, 0)] ⟨1, [.memory 2 0], 3⟩ :=
  .nested .here (List.mem_cons_self ..)

theorem AcceptedProcedure.stack_slots_reused : ∃ p : AcceptedProcedure,
    p.toParsedProcedure = .reuses_slot ∧
      (([0] ++ p.final.names.visible [] [(Definition.reuses_slot.body, 0)]).map
        p.final.unique_id).Nodup := by
  refine ⟨⟨.reuses_slot, _, rfl⟩, rfl, ?_⟩
  exact (AcceptedProcedure.stack_slots ⟨.reuses_slot, _, rfl⟩ Definition.reuses_slot_contains).1

-- The variable after the nested block gets the place that the one in it has had.
theorem AcceptedProcedure.slot_reused : ∃ (p : AcceptedProcedure) (inner : BlockStatement),
    p.definition.body.Contains [(p.definition.body, 0)] inner ∧
      ∃ id ∈ p.final.names.locals inner.this, ∃ id' ∈ p.final.names.locals p.definition.body.this,
        id ≠ id' ∧ p.final.unique_id id = p.final.unique_id id' :=
  ⟨⟨.reuses_slot, _, rfl⟩, _, .nested .here (List.mem_cons_self ..),
    0, List.mem_cons_self .., 1, List.mem_cons_self .., by decide, rfl⟩

end Reowolf
