import Reowolf.Protocol.BlockScopes

namespace Reowolf

-- The blocks directly in a statement.
def Statement.scopes : Statement → List BlockStatement
  | .block body | .while _ _ body _ | .synchronous _ body _ => [body]
  | .if _ _ true_body false_body _                          => true_body :: false_body.toList
  | .labeled _ _ body                                       => body.scopes
  | _                                                       => []

-- The blocks directly in statements, with the positions of the statements.
def Statement.listNested (pos : Nat) : List Statement → List (Nat × BlockStatement)
  | []            => []
  | stmt :: stmts => stmt.scopes.map (pos, ·) ++ listNested (pos + stmt.width) stmts

def BlockOf.nested (body : BlockStatement) : List (Nat × BlockStatement) :=
  Statement.listNested 0 body.statements

-- The number of locals of a block that are declared at a position or before it.
def Names.declared_until (names : Names) (locals : List VariableId) (pos : Nat) : Nat :=
  locals.countP fun id => (names.get id).relative_pos_in_block ≤ pos

-- The pass gives unique ids to variables and to blocks.
structure Heap.Assigns (ids : List VariableId) (blocks : List StatementId) (heap heap' : Heap) :
    Prop where
  locals : heap'.names.locals = heap.names.locals
  length : heap'.names.arena.length = heap.names.arena.length
  pos    : ∀ id, (heap'.names.get id).relative_pos_in_block = (heap.names.get id).relative_pos_in_block
  kept   : ∀ id ∉ ids, heap'.names.get id = heap.names.get id
  first  : ∀ block ∉ blocks, heap'.first_unique_id_in_scope block = heap.first_unique_id_in_scope block
  next   : ∀ block ∉ blocks, heap'.next_unique_id_in_scope block = heap.next_unique_id_in_scope block

-- The locals of a block have consecutive ids. The ids in a nested block start after those of the
-- locals that are declared before it.
structure Heap.Allocates (heap : Heap) (body : BlockStatement) : Prop where
  ids    : (heap.names.locals body.this).map (fun id => (heap.names.get id).unique_id_in_scope) =
    List.range' (heap.first_unique_id_in_scope body.this) (heap.names.locals body.this).length
  next   : heap.next_unique_id_in_scope body.this =
    heap.first_unique_id_in_scope body.this + (heap.names.locals body.this).length
  nested : ∀ x ∈ body.nested, heap.first_unique_id_in_scope x.2.this =
    heap.first_unique_id_in_scope body.this +
      heap.names.declared_until (heap.names.locals body.this) x.1

-- What the pass finds for the blocks: every variable is a local of one block, in the order of the
-- positions.
structure Names.Lists (names : Names) (blocks : List BlockStatement) : Prop where
  distinct  : (blocks.map BlockOf.this).Nodup
  nodup     : (blocks.flatMap fun body => names.locals body.this).Nodup
  allocated : ∀ body ∈ blocks, ∀ id ∈ names.locals body.this, id < names.arena.length
  sorted    : ∀ body ∈ blocks, (names.locals body.this).Pairwise fun id id' =>
    (names.get id).relative_pos_in_block ≤ (names.get id').relative_pos_in_block

def Names.listed (names : Names) (blocks : List BlockStatement) : List VariableId :=
  blocks.flatMap fun body => names.locals body.this

section

variable {heap heap₁ heap₂ : Heap} {ids ids₁ ids₂ : List VariableId}
variable {blocks blocks₁ blocks₂ : List StatementId}

namespace Heap.Assigns

theorem refl (heap : Heap) : heap.Assigns [] [] heap where
  locals     := rfl
  length     := rfl
  pos _      := rfl
  kept _ _   := rfl
  first _ _  := rfl
  next _ _   := rfl

theorem trans (h₁ : Heap.Assigns ids₁ blocks₁ heap heap₁)
    (h₂ : Heap.Assigns ids₂ blocks₂ heap₁ heap₂) :
    Heap.Assigns (ids₁ ++ ids₂) (blocks₁ ++ blocks₂) heap heap₂ where
  locals := h₂.locals.trans h₁.locals
  length := h₂.length.trans h₁.length
  pos id := (h₂.pos id).trans (h₁.pos id)
  kept id hi := by
    simp only [List.mem_append, not_or] at hi
    rw [h₂.kept id hi.2, h₁.kept id hi.1]
  first block hb := by
    simp only [List.mem_append, not_or] at hb
    rw [h₂.first block hb.2, h₁.first block hb.1]
  next block hb := by
    simp only [List.mem_append, not_or] at hb
    rw [h₂.next block hb.2, h₁.next block hb.1]

theorem mono (h : Heap.Assigns ids₁ blocks₁ heap heap₁) (hi : ids₁ ⊆ ids) (hb : blocks₁ ⊆ blocks) :
    Heap.Assigns ids blocks heap heap₁ where
  locals      := h.locals
  length      := h.length
  pos         := h.pos
  kept id hm  := h.kept id fun hm' => hm (hi hm')
  first b hm  := h.first b fun hm' => hm (hb hm')
  next b hm   := h.next b fun hm' => hm (hb hm')

theorem declared_until (h : Heap.Assigns ids blocks heap heap₁) (locals : List VariableId) (pos : Nat) :
    heap₁.names.declared_until locals pos = heap.names.declared_until locals pos := by
  simp only [Names.declared_until, h.pos]

theorem lists {bodies : List BlockStatement} (h : Heap.Assigns ids blocks heap heap₁)
    (hl : heap.names.Lists bodies) : heap₁.names.Lists bodies where
  distinct  := hl.distinct
  nodup     := by
    rw [h.locals]
    exact hl.nodup
  allocated body hb id hi := by
    rw [h.length]
    exact hl.allocated body hb id (h.locals ▸ hi)
  sorted body hb := by
    simp only [h.locals, h.pos]
    exact hl.sorted body hb

theorem records {body : BlockStatement} (h : Heap.Assigns ids blocks heap heap₁)
    (hr : heap.names.Records body) : heap₁.names.Records body where
  locals := by
    simp only [h.locals, h.pos]
    exact hr.locals
  allocated id hi := h.length ▸ hr.allocated id (h.locals ▸ hi)
  pos x hx := (h.pos x.1).trans (hr.pos x hx)

-- What a block has got stays when other variables and blocks get theirs.
theorem allocates {body : BlockStatement} (h : Heap.Assigns ids blocks heap heap₁)
    (ha : heap.Allocates body) (hl : ∀ id ∈ heap.names.locals body.this, id ∉ ids)
    (hb : body.this ∉ blocks) (hn : ∀ x ∈ body.nested, x.2.this ∉ blocks) : heap₁.Allocates body where
  ids := by
    rw [h.locals, h.first _ hb, ← ha.ids]
    exact List.map_congr_left fun id hi => by rw [h.kept id (hl id hi)]
  next := by rw [h.locals, h.first _ hb, h.next _ hb, ha.next]
  nested x hx := by
    rw [h.locals, h.first _ hb, h.first _ (hn x hx), h.declared_until, ha.nested x hx]

theorem set_unique_id (heap : Heap) (id : VariableId) (unique_id : Nat) :
    heap.Assigns [id] [] (heap.set_unique_id id unique_id) where
  locals := rfl
  length := List.length_modify ..
  pos id' := by
    simp only [Heap.set_unique_id, Names.get, List.getD_eq_getElem?_getD, List.getElem?_modify]
    split
    · cases heap.names.arena[id']? <;> rfl
    · simp
  kept id' hi := by
    have hne : id ≠ id' := fun he => hi (by simp [he])
    simp only [Heap.set_unique_id, Names.get, List.getD_eq_getElem?_getD,
      List.getElem?_modify_ne _ _ hne]
  first _ _ := rfl
  next _ _ := rfl

end Heap.Assigns

theorem Heap.set_unique_id_get {id : VariableId} {unique_id : Nat} (h : id < heap.names.arena.length) :
    ((heap.set_unique_id id unique_id).names.get id).unique_id_in_scope = unique_id := by
  simp only [Heap.set_unique_id, Names.get, List.getD_eq_getElem?_getD, List.getElem?_modify_eq,
    List.getElem?_eq_getElem h, Option.map_eq_map, Option.map_some, Option.getD_some]

theorem LocalIds.assign_spec (before : Nat → Prop) [DecidablePred before] (locals : List VariableId)
    (var_counter : Nat) (heap : Heap) (hn : locals.Nodup)
    (ha : ∀ id ∈ locals, id < heap.names.arena.length) :
    ∃ done rest heap', locals = done ++ rest ∧
      LocalIds.assign before locals var_counter heap = ⟨rest, var_counter + done.length, heap'⟩ ∧
      heap.Assigns done [] heap' ∧
      done.map (fun id => (heap'.names.get id).unique_id_in_scope) =
        List.range' var_counter done.length ∧
      (∀ id ∈ done, before (heap.names.get id).relative_pos_in_block) ∧
      ∀ id ∈ rest.head?, ¬before (heap.names.get id).relative_pos_in_block := by
  induction locals generalizing var_counter heap
  case nil => exact ⟨[], [], heap, rfl, rfl, .refl heap, rfl, by simp, by simp⟩
  case cons id locals ih =>
    by_cases hb : before (heap.names.get id).relative_pos_in_block
    case neg =>
      refine ⟨[], id :: locals, heap, rfl, ?_, .refl heap, rfl, by simp, by simpa using hb⟩
      simp only [LocalIds.assign, if_neg hb]
      rfl
    case pos =>
      have hs := Heap.Assigns.set_unique_id heap id var_counter
      simp only [List.nodup_cons] at hn
      obtain ⟨done, rest, heap', he, hassign, h, hids, hbefore, hhead⟩ := ih (var_counter + 1)
        (heap.set_unique_id id var_counter) hn.2
        fun id' hi => hs.length ▸ ha id' (List.mem_cons_of_mem _ hi)
      have hid : id ∉ done := fun hm => hn.1 (he ▸ List.mem_append_left _ hm)
      simp only [hs.pos] at hbefore hhead
      refine ⟨id :: done, rest, heap', by rw [he]; rfl, ?_, hs.trans h, ?_, ?_, hhead⟩
      · simp only [LocalIds.assign, if_pos hb, hassign, List.length_cons]
        rw [Nat.add_assoc, Nat.add_comm 1]
      · rw [List.map_cons, hids, h.kept id hid,
          Heap.set_unique_id_get (ha id (List.mem_cons_self ..)), List.length_cons,
          List.range'_succ]
      · intro id' hi
        cases List.mem_cons.mp hi
        case inl he => exact he ▸ hb
        case inr hi => exact hbefore id' hi

-- The locals of a block, and the blocks in it that are still to be walked over.
structure Names.Walkable (names : Names) (locals : List VariableId) (blocks : List BlockStatement) :
    Prop where
  lists     : names.Lists blocks
  disjoint  : locals.Disjoint (names.listed blocks)
  nodup     : locals.Nodup
  allocated : ∀ id ∈ locals, id < names.arena.length
  sorted    : locals.Pairwise fun id id' =>
    (names.get id).relative_pos_in_block ≤ (names.get id').relative_pos_in_block

-- In the walk over the statements of a block some locals, none of them declared after the position,
-- have got their ids.
structure LocalIds.Walks (locals : List VariableId) (first pos : Nat) (ids : LocalIds) : Prop where
  done : ∃ done, locals = done ++ ids.remaining ∧ ids.var_counter = first + done.length ∧
    done.map (fun id => (ids.heap.names.get id).unique_id_in_scope) =
      List.range' first done.length ∧
    ∀ id ∈ done, (ids.heap.names.get id).relative_pos_in_block ≤ pos

-- What the walk over a part of the statements does.
structure LocalIds.Walked (locals : List VariableId) (first pos : Nat)
    (blocks : List BlockStatement) (nested : List (Nat × BlockStatement)) (ids ids' : LocalIds) :
    Prop where
  walks     : ids'.Walks locals first pos
  assigns   : Heap.Assigns (locals ++ ids.heap.names.listed blocks) (blocks.map BlockOf.this)
    ids.heap ids'.heap
  allocates : ∀ body ∈ blocks, ids'.heap.Allocates body
  first     : ∀ x ∈ nested, ids'.heap.first_unique_id_in_scope x.2.this =
    first + ids.heap.names.declared_until locals x.1

variable {locals : List VariableId} {bodies bodies₁ bodies₂ : List BlockStatement}

theorem Heap.Assigns.listed (h : heap.Assigns ids blocks heap₁) (bodies : List BlockStatement) :
    heap₁.names.listed bodies = heap.names.listed bodies := by
  simp only [Names.listed, h.locals]

theorem Names.listed_append (names : Names) :
    names.listed (bodies₁ ++ bodies₂) = names.listed bodies₁ ++ names.listed bodies₂ :=
  List.flatMap_append

theorem Names.mem_listed {names : Names} {body : BlockStatement} {id : VariableId}
    (hb : body ∈ bodies) (hi : id ∈ names.locals body.this) : id ∈ names.listed bodies :=
  List.mem_flatMap.mpr ⟨body, hb, hi⟩

namespace Names.Lists

variable {names : Names}

theorem left (h : names.Lists (bodies₁ ++ bodies₂)) : names.Lists bodies₁ where
  distinct          := (List.map_append ▸ h.distinct).of_append_left
  nodup             := (List.flatMap_append ▸ h.nodup).of_append_left
  allocated body hb := h.allocated body (List.mem_append_left _ hb)
  sorted body hb    := h.sorted body (List.mem_append_left _ hb)

theorem right (h : names.Lists (bodies₁ ++ bodies₂)) : names.Lists bodies₂ where
  distinct          := (List.map_append ▸ h.distinct).of_append_right
  nodup             := (List.flatMap_append ▸ h.nodup).of_append_right
  allocated body hb := h.allocated body (List.mem_append_right _ hb)
  sorted body hb    := h.sorted body (List.mem_append_right _ hb)

end Names.Lists

namespace Names.Walkable

variable {names : Names}

theorem left (h : names.Walkable locals (bodies₁ ++ bodies₂)) : names.Walkable locals bodies₁ :=
  { h with
    lists    := h.lists.left
    disjoint := fun _ hi hm => h.disjoint hi (names.listed_append ▸ List.mem_append_left _ hm) }

theorem right (h : names.Walkable locals (bodies₁ ++ bodies₂)) : names.Walkable locals bodies₂ :=
  { h with
    lists    := h.lists.right
    disjoint := fun _ hi hm => h.disjoint hi (names.listed_append ▸ List.mem_append_right _ hm) }

theorem assigns (h : heap.names.Walkable locals bodies) (ha : heap.Assigns ids blocks heap₁) :
    heap₁.names.Walkable locals bodies where
  lists          := ha.lists h.lists
  disjoint       := ha.listed bodies ▸ h.disjoint
  nodup          := h.nodup
  allocated id hi := ha.length ▸ h.allocated id hi
  sorted         := by
    simp only [ha.pos]
    exact h.sorted

end Names.Walkable

-- The locals up to a position are those in front of the first one after it.
theorem Names.declared_until_eq {names : Names} {done rest : List VariableId} {pos : Nat}
    (hd : ∀ id ∈ done, (names.get id).relative_pos_in_block ≤ pos)
    (hr : ∀ id ∈ rest.head?, ¬(names.get id).relative_pos_in_block ≤ pos)
    (hs : (done ++ rest).Pairwise fun id id' =>
      (names.get id).relative_pos_in_block ≤ (names.get id').relative_pos_in_block) :
    names.declared_until (done ++ rest) pos = done.length := by
  have hrest : ∀ id ∈ rest, ¬(names.get id).relative_pos_in_block ≤ pos := by
    intro id hi hle
    cases rest
    case nil => cases hi
    case cons first rest =>
      have hs := (List.pairwise_append.mp hs).2.1
      have hfirst := hr first (by simp)
      cases List.mem_cons.mp hi
      case inl he => exact hfirst (he ▸ hle)
      case inr hi => exact hfirst (Nat.le_trans ((List.pairwise_cons.mp hs).1 id hi) hle)
  rw [Names.declared_until, List.countP_append, List.countP_eq_length.mpr (by simpa using hd),
    List.countP_eq_zero.mpr (by simpa using hrest), Nat.add_zero]

namespace LocalIds

variable {ids ids₁ ids₂ : LocalIds} {first pos pos' : Nat}

theorem Walks.assign_until (h : ids.Walks locals first pos) (hp : pos ≤ pos')
    (hw : ids.heap.names.Walkable locals bodies) :
    (ids.assign_until pos').Walks locals first pos' ∧
      Heap.Assigns locals [] ids.heap (ids.assign_until pos').heap ∧
      (ids.assign_until pos').var_counter =
        first + ids.heap.names.declared_until locals pos' := by
  obtain ⟨done, he, hc, hids, hbefore⟩ := h.done
  have hn := hw.nodup
  rw [he, List.nodup_append'] at hn
  obtain ⟨done', rest, heap', he', hassign, ha, hids', hbefore', hhead⟩ :=
    LocalIds.assign_spec (· ≤ pos') ids.remaining ids.var_counter ids.heap hn.2.1
      fun id hi => hw.allocated id (he ▸ List.mem_append_right _ hi)
  have heq : ids.assign_until pos' = ⟨rest, ids.var_counter + done'.length, heap'⟩ := hassign
  have hlocals : locals = (done ++ done') ++ rest := by rw [he, he', List.append_assoc]
  have hdone : ∀ id ∈ done ++ done', (ids.heap.names.get id).relative_pos_in_block ≤ pos' := by
    intro id hi
    cases List.mem_append.mp hi
    case inl hi => exact Nat.le_trans (hbefore id hi) hp
    case inr hi => exact hbefore' id hi
  have hkept : ∀ id ∈ done, heap'.names.get id = ids.heap.names.get id := by
    intro id hi
    exact ha.kept id fun hm => hn.2.2 hi (he' ▸ List.mem_append_left _ hm)
  rw [heq]
  refine ⟨⟨done ++ done', hlocals, ?_, ?_, ?_⟩, ?_, ?_⟩
  · rw [hc, List.length_append, Nat.add_assoc]
  · rw [List.map_append, hids', List.length_append, hc, ← List.range'_append_1, ← hids]
    congr 1
    exact List.map_congr_left fun id hi => by rw [hkept id hi]
  · intro id hi
    rw [ha.pos]
    exact hdone id hi
  · exact ha.mono (fun id hi => hlocals ▸ by simp [hi]) (by simp)
  · rw [hlocals, Names.declared_until_eq hdone hhead (hlocals ▸ hw.sorted), hc, List.length_append,
      Nat.add_assoc]

theorem Walks.assign_all (h : ids.Walks locals first pos)
    (hw : ids.heap.names.Walkable locals bodies) :
    Heap.Assigns locals [] ids.heap ids.assign_all.heap ∧
      ids.assign_all.var_counter = first + locals.length ∧
      locals.map (fun id => (ids.assign_all.heap.names.get id).unique_id_in_scope) =
        List.range' first locals.length := by
  obtain ⟨done, he, hc, hids, hbefore⟩ := h.done
  have hn := hw.nodup
  rw [he, List.nodup_append'] at hn
  obtain ⟨done', rest, heap', he', hassign, ha, hids', _, hhead⟩ :=
    LocalIds.assign_spec (fun _ => True) ids.remaining ids.var_counter ids.heap hn.2.1
      fun id hi => hw.allocated id (he ▸ List.mem_append_right _ hi)
  have heq : ids.assign_all = ⟨rest, ids.var_counter + done'.length, heap'⟩ := hassign
  have hrest : rest = [] := by
    cases rest
    case nil => rfl
    case cons id rest => exact absurd trivial (hhead id (by simp))
  have hlocals : locals = done ++ done' := by rw [he, he', hrest, List.append_nil]
  have hkept : ∀ id ∈ done, heap'.names.get id = ids.heap.names.get id := by
    intro id hi
    exact ha.kept id fun hm => hn.2.2 hi (he' ▸ List.mem_append_left _ hm)
  rw [heq]
  refine ⟨ha.mono (fun id hi => hlocals ▸ by simp [hi]) (by simp), ?_, ?_⟩
  · rw [hc, hlocals, List.length_append, Nat.add_assoc]
  · rw [hlocals, List.map_append, hids', List.length_append, hc, ← List.range'_append_1, ← hids]
    congr 1
    exact List.map_congr_left fun id hi => by rw [hkept id hi]

-- Blocks that come with those nested in them.
def Closed (bodies : List BlockStatement) : Prop :=
  ∀ body ∈ bodies, ∀ x ∈ body.nested, x.2 ∈ bodies

theorem Walked.refl (h : ids.Walks locals first pos) : Walked locals first pos [] [] ids ids where
  walks             := h
  assigns           := (Heap.Assigns.refl ids.heap).mono (by simp) (by simp)
  allocates body hb := by cases hb
  first x hx        := by cases hx

theorem Walked.trans {nested₁ nested₂ : List (Nat × BlockStatement)}
    (h₁ : Walked locals first pos bodies₁ nested₁ ids ids₁)
    (h₂ : Walked locals first pos' bodies₂ nested₂ ids₁ ids₂)
    (hw : ids.heap.names.Walkable locals (bodies₁ ++ bodies₂)) (hc : Closed bodies₁)
    (hn : ∀ x ∈ nested₁, x.2 ∈ bodies₁) :
    Walked locals first pos' (bodies₁ ++ bodies₂) (nested₁ ++ nested₂) ids ids₂ := by
  have hlisted := h₁.assigns.listed bodies₂
  have hdistinct := hw.lists.distinct
  rw [List.map_append, List.nodup_append'] at hdistinct
  have hnodup : (ids.heap.names.listed (bodies₁ ++ bodies₂)).Nodup := hw.lists.nodup
  rw [Names.listed_append, List.nodup_append'] at hnodup
  have hother : ∀ body ∈ bodies₁, body.this ∉ bodies₂.map BlockOf.this :=
    fun body hb hm => hdistinct.2.2 (List.mem_map_of_mem hb) hm
  exact {
    walks := h₂.walks
    assigns := by
      apply (h₁.assigns.trans h₂.assigns).mono
      · rw [hlisted, Names.listed_append]
        intro id hi
        simp only [List.mem_append] at hi ⊢
        tauto
      · rw [List.map_append]
        exact List.Subset.refl _
    allocates body hb := by
      cases List.mem_append.mp hb
      case inr hb => exact h₂.allocates body hb
      case inl hb =>
        apply h₂.assigns.allocates (h₁.allocates body hb)
        · intro id hi hm
          rw [h₁.assigns.locals] at hi
          have hi := Names.mem_listed hb hi
          rw [hlisted] at hm
          cases List.mem_append.mp hm
          case inl hm => exact hw.left.disjoint hm hi
          case inr hm => exact hnodup.2.2 hi hm
        · exact hother body hb
        · exact fun x hx => hother x.2 (hc body hb x hx)
    first x hx := by
      cases List.mem_append.mp hx
      case inl hx => rw [h₂.assigns.first _ (hother x.2 (hn x hx)), h₁.first x hx]
      case inr hx => rw [h₂.first x hx, h₁.assigns.declared_until] }

end LocalIds

-- What the walk over a block does.
structure Heap.Slots (body : BlockStatement) (var_counter : Nat) (heap heap' : Heap) : Prop where
  assigns   : Heap.Assigns (heap.names.listed body.blocks) (body.blocks.map BlockOf.this) heap heap'
  allocates : ∀ nested ∈ body.blocks, heap'.Allocates nested
  first     : heap'.first_unique_id_in_scope body.this = var_counter

theorem LocalIds.Walked.block {ids : LocalIds} {first pos pos' : Nat} {body : BlockStatement}
    {heap' : Heap} (h : ids.Walks locals first pos) (hp : pos ≤ pos')
    (hw : ids.heap.names.Walkable locals body.blocks)
    (hs : Heap.Slots body (ids.assign_until pos').var_counter (ids.assign_until pos').heap heap') :
    Walked locals first pos' body.blocks [(pos', body)] ids
      { ids.assign_until pos' with heap := heap' } := by
  obtain ⟨hwalks, ha, hvar⟩ := h.assign_until hp hw
  have hlisted := ha.listed body.blocks
  obtain ⟨done, he, hcount, hids, hbefore⟩ := hwalks.done
  have hdone : ∀ id ∈ done, id ∉ (ids.assign_until pos').heap.names.listed body.blocks := by
    intro id hi hm
    rw [hlisted] at hm
    exact hw.disjoint (he ▸ List.mem_append_left _ hi) hm
  exact {
    walks := ⟨done, he, hcount, by
      rw [← hids]
      exact List.map_congr_left fun id hi => by rw [hs.assigns.kept id (hdone id hi)],
      fun id hi => by rw [hs.assigns.pos]; exact hbefore id hi⟩
    assigns := by
      have ht := ha.trans hs.assigns
      rwa [hlisted] at ht
    allocates := hs.allocates
    first x hx := by
      cases List.mem_singleton.mp hx
      rw [hs.first, hvar] }

theorem Names.Walkable.of_lists {names : Names} (body : BlockStatement)
    (h : names.Lists (body :: Statement.listBlocks body.statements)) :
    names.Walkable (names.locals body.this) (Statement.listBlocks body.statements) := by
  have hnodup := h.nodup
  rw [List.flatMap_cons, List.nodup_append'] at hnodup
  have hlists : names.Lists ([body] ++ Statement.listBlocks body.statements) := h
  exact {
    lists     := hlists.right
    disjoint  := hnodup.2.2
    nodup     := hnodup.1
    allocated := h.allocated body (List.mem_cons_self ..)
    sorted    := h.sorted body (List.mem_cons_self ..) }

theorem LocalIds.Walks.mono {ids : LocalIds} {first pos pos' : Nat} (h : ids.Walks locals first pos)
    (hp : pos ≤ pos') : ids.Walks locals first pos' := by
  obtain ⟨done, he, hc, hids, hbefore⟩ := h.done
  exact ⟨done, he, hc, hids, fun id hi => Nat.le_trans (hbefore id hi) hp⟩

theorem Statement.scopes_subset : (stmt : Statement) → stmt.scopes ⊆ stmt.blocks
  | .block _ | .while .. | .synchronous .. => by simp [Statement.scopes, Statement.blocks]
  | .labeled _ _ body => by
    simp only [Statement.scopes, Statement.blocks]
    exact Statement.scopes_subset body
  | .if _ _ true_body false_body _ => by
    cases false_body <;> simp [Statement.scopes, Statement.blocks, BlockOf.optionBlocks]
  | .memory .. | .channel .. | .break .. | .continue .. | .return .. | .goto .. | .new ..
  | .expression .. => List.nil_subset _

theorem Statement.listNested_mem {stmts : List Statement} {pos : Nat} {x : Nat × BlockStatement}
    (h : x ∈ Statement.listNested pos stmts) : x.2 ∈ Statement.listBlocks stmts := by
  induction stmts generalizing pos
  case nil => cases h
  case cons stmt stmts ih =>
    rw [Statement.listBlocks_cons]
    cases List.mem_append.mp h
    case inl h =>
      obtain ⟨body, hb, he⟩ := List.mem_map.mp h
      subst he
      exact List.mem_append_left _ (stmt.scopes_subset hb)
    case inr h => exact List.mem_append_right _ (ih h)

namespace LocalIds

theorem Closed.append (h₁ : Closed bodies₁) (h₂ : Closed bodies₂) : Closed (bodies₁ ++ bodies₂) := by
  intro body hb x hx
  cases List.mem_append.mp hb
  case inl hb => exact List.mem_append_left _ (h₁ body hb x hx)
  case inr hb => exact List.mem_append_right _ (h₂ body hb x hx)

mutual

theorem closed_stmt : (stmt : Statement) → Closed stmt.blocks
  | .block body => by simpa only [Statement.blocks] using closed_block body
  | .labeled _ _ body => by simpa only [Statement.blocks] using closed_stmt body
  | .if _ _ true_body false_body _ => by
    simpa only [Statement.blocks] using (closed_block true_body).append (closed_option false_body)
  | .while _ _ body _ | .synchronous _ body _ => by
    simpa only [Statement.blocks] using closed_block body
  | .memory .. | .channel .. | .break .. | .continue .. | .return .. | .goto .. | .new ..
  | .expression .. => by
    intro body hb
    simp only [Statement.blocks] at hb
    cases hb

theorem closed_block : (body : BlockStatement) → Closed body.blocks
  | ⟨this, statements, end_block⟩ => by
    intro body hb x hx
    rw [BlockOf.blocks_eq] at hb ⊢
    cases List.mem_cons.mp hb
    case inl he =>
      subst he
      exact List.mem_cons_of_mem _ (Statement.listNested_mem hx)
    case inr hb => exact List.mem_cons_of_mem _ (closed_list statements body hb x hx)

theorem closed_list : (stmts : List Statement) → Closed (Statement.listBlocks stmts)
  | [] => by
    intro body hb
    rw [Statement.listBlocks_nil] at hb
    cases hb
  | stmt :: stmts => by
    rw [Statement.listBlocks_cons]
    exact (closed_stmt stmt).append (closed_list stmts)

theorem closed_option : (body : Option BlockStatement) → Closed (BlockOf.optionBlocks body)
  | none => by
    intro body hb
    simp only [BlockOf.optionBlocks] at hb
    cases hb
  | some body => by simpa only [BlockOf.optionBlocks] using closed_block body

end

end LocalIds

open LocalIds

-- The walk over a block, from that over its statements.
theorem Heap.Slots.of_walked (body : BlockStatement) {var_counter last : Nat} {ids ids₁ : LocalIds}
    (hl : heap.names.Lists (body :: Statement.listBlocks body.statements))
    (hb : Heap.Assigns [] [body.this] heap ids.heap)
    (hf : ids.heap.first_unique_id_in_scope body.this = var_counter)
    (hs : Walked (heap.names.locals body.this) var_counter last
      (Statement.listBlocks body.statements) body.nested ids ids₁) :
    Heap.Slots body var_counter heap { ids₁.assign_all.heap with
      next_unique_id_in_scope := Function.update ids₁.assign_all.heap.next_unique_id_in_scope
        body.this ids₁.assign_all.var_counter } := by
  have hw := (Names.Walkable.of_lists body hl).assigns hb
  obtain ⟨ha, hc, hids⟩ := hs.walks.assign_all (hw.assigns hs.assigns)
  have hdistinct := hl.distinct
  rw [List.map_cons, List.nodup_cons] at hdistinct
  generalize he : { ids₁.assign_all.heap with
    next_unique_id_in_scope := Function.update ids₁.assign_all.heap.next_unique_id_in_scope
      body.this ids₁.assign_all.var_counter } = heap'
  have hnames : heap'.names = ids₁.assign_all.heap.names := he ▸ rfl
  have hnext : heap'.next_unique_id_in_scope body.this = ids₁.assign_all.var_counter :=
    he ▸ Function.update_self ..
  have hafter : Heap.Assigns [] [body.this] ids₁.assign_all.heap heap' := {
    locals      := he ▸ rfl
    length      := he ▸ rfl
    pos _       := he ▸ rfl
    kept _ _    := he ▸ rfl
    first _ _   := he ▸ rfl
    next b hb   := he ▸ Function.update_of_ne (by simpa using hb) _ _ }
  have hlocals : heap'.names.locals = heap.names.locals :=
    hafter.locals.trans (ha.locals.trans (hs.assigns.locals.trans hb.locals))
  have hfirst : heap'.first_unique_id_in_scope body.this = var_counter := by
    rw [← hf, ← hs.assigns.first _ hdistinct.1, ← ha.first _ List.not_mem_nil, ← he]
  have hother : ∀ nested ∈ Statement.listBlocks body.statements, nested.this ∉ [body.this] := by
    intro nested hn hm
    have he : nested.this = body.this := by simpa using hm
    exact hdistinct.1 (he ▸ List.mem_map_of_mem hn)
  have hnested : ∀ x ∈ body.nested, x.2.this ∉ [body.this] :=
    fun x hx => hother x.2 (Statement.listNested_mem hx)
  exact {
    assigns := by
      apply (((hb.trans hs.assigns).trans ha).trans hafter).mono
      · simp only [BlockOf.blocks_eq, Names.listed, List.flatMap_cons, List.nil_append,
          List.append_nil, hb.locals]
        intro id hi
        simp only [List.mem_append] at hi ⊢
        tauto
      · simp only [BlockOf.blocks_eq, List.map_cons, List.append_nil]
        intro id hi
        simp only [List.mem_append, List.mem_cons, List.not_mem_nil, or_false] at hi ⊢
        tauto
    allocates nested hn := by
      rw [BlockOf.blocks_eq] at hn
      cases List.mem_cons.mp hn
      case inl he' =>
        subst he'
        exact {
          ids    := by rw [hlocals, hnames, hids, hfirst]
          next   := by rw [hlocals, hfirst, hnext, hc]
          nested := by
            intro x hx
            have hx' : x.2.this ∉ [nested.this] := hnested x hx
            rw [hlocals, hfirst, hafter.first _ hx', ha.first _ List.not_mem_nil, hs.first x hx,
              hafter.declared_until, ha.declared_until, hs.assigns.declared_until] }
      case inr hn =>
        have hwalk : ∀ id ∈ ids₁.heap.names.locals nested.this,
            id ∉ heap.names.locals body.this := by
          intro id hi hm
          rw [hs.assigns.locals] at hi
          exact hw.disjoint hm (Names.mem_listed hn hi)
        have h₁ := ha.allocates (hs.allocates nested hn) hwalk List.not_mem_nil fun _ _ => List.not_mem_nil
        apply hafter.allocates h₁ (fun _ _ => List.not_mem_nil) (hother nested hn)
        exact fun x hx => hother x.2 (closed_list body.statements nested hn x hx)
    first := hfirst }

mutual

theorem visit_stmt_slots : (stmt : Statement) → {locals : List VariableId} → {ids : LocalIds} →
    {first pos pos' : Nat} → ids.Walks locals first pos → pos ≤ pos' → ids.heap.names.Walkable locals stmt.blocks →
    Walked locals first pos' stmt.blocks (stmt.scopes.map (pos', ·)) ids
      (visit_stmt_and_assign_local_ids pos' stmt ids)
  | .block body, locals, ids, first, pos, pos', h, hp, hw | .while _ _ body _, locals, ids, first, pos, pos', h, hp, hw
  | .synchronous _ body _, locals, ids, first, pos, pos', h, hp, hw => by
    simp only [Statement.blocks] at hw ⊢
    simp only [visit_stmt_and_assign_local_ids]
    obtain ⟨_, ha, _⟩ := h.assign_until hp hw
    exact .block h hp hw (visit_block_slots body (hw.assigns ha).lists)
  | .labeled _ _ body, locals, ids, first, pos, pos', h, hp, hw => by
    simp only [Statement.blocks] at hw ⊢
    simp only [visit_stmt_and_assign_local_ids]
    exact visit_stmt_slots body h hp hw
  | .if _ _ true_body false_body _, locals, ids, first, pos, pos', h, hp, hw => by
    simp only [Statement.blocks] at hw ⊢
    simp only [visit_stmt_and_assign_local_ids]
    obtain ⟨_, ha, _⟩ := h.assign_until hp hw
    have htrue := Walked.block h hp hw.left
      (visit_block_slots true_body (hw.left.assigns ha).lists)
    have hfalse := visit_false_body_slots false_body htrue.walks (hw.right.assigns htrue.assigns)
    exact htrue.trans hfalse hw (closed_block true_body) (by simp)
  | .memory .., locals, ids, first, pos, pos', h, hp, hw | .channel .., locals, ids, first, pos, pos', h, hp, hw
  | .break .., locals, ids, first, pos, pos', h, hp, hw | .continue .., locals, ids, first, pos, pos', h, hp, hw
  | .return .., locals, ids, first, pos, pos', h, hp, hw | .goto .., locals, ids, first, pos, pos', h, hp, hw
  | .new .., locals, ids, first, pos, pos', h, hp, hw | .expression .., locals, ids, first, pos, pos', h, hp, hw => by
    simp only [Statement.blocks, visit_stmt_and_assign_local_ids]
    exact .refl (h.mono hp)

theorem visit_block_slots : (body : BlockStatement) → {var_counter : Nat} → {heap : Heap} →
    heap.names.Lists body.blocks →
    Heap.Slots body var_counter heap (visit_block_and_assign_local_ids body var_counter heap)
  | ⟨this, statements, end_block⟩, var_counter, heap, hl => by
    rw [BlockOf.blocks_eq] at hl
    let heap₁ : Heap := { heap with
      first_unique_id_in_scope := Function.update heap.first_unique_id_in_scope this var_counter }
    have h₀ : Walks (heap.names.locals this) var_counter 0
        ⟨heap₁.names.locals this, var_counter, heap₁⟩ := ⟨[], rfl, rfl, rfl, by simp⟩
    have hbefore : Heap.Assigns [] [this] heap heap₁ := {
      locals      := rfl
      length      := rfl
      pos _       := rfl
      kept _ _    := rfl
      first b hb  := Function.update_of_ne (by simpa using hb) _ _
      next _ _    := rfl }
    obtain ⟨last, hs⟩ := visit_stmts_slots statements h₀ (Nat.le_refl 0)
      (Names.Walkable.of_lists ⟨this, statements, end_block⟩ hl |>.assigns hbefore)
    simp only [visit_block_and_assign_local_ids]
    exact Heap.Slots.of_walked ⟨this, statements, end_block⟩ hl hbefore
      (Function.update_self ..) hs

theorem visit_stmts_slots : (stmts : List Statement) → {locals : List VariableId} →
    {ids : LocalIds} → {first pos pos' : Nat} → ids.Walks locals first pos → pos ≤ pos' →
    ids.heap.names.Walkable locals (Statement.listBlocks stmts) →
    ∃ last, Walked locals first last (Statement.listBlocks stmts) (Statement.listNested pos' stmts) ids
      (visit_stmts_and_assign_local_ids pos' stmts ids)
  | [], locals, ids, first, pos, pos', h, hp, hw => by
    simp only [Statement.listBlocks_nil, Statement.listNested, visit_stmts_and_assign_local_ids]
    exact ⟨pos, .refl h⟩
  | stmt :: stmts, locals, ids, first, pos, pos', h, hp, hw => by
    simp only [Statement.listBlocks_cons] at hw ⊢
    simp only [Statement.listNested, visit_stmts_and_assign_local_ids]
    have hhead := visit_stmt_slots stmt h hp hw.left
    obtain ⟨last, htail⟩ := visit_stmts_slots stmts hhead.walks (Nat.le_add_right pos' stmt.width)
      (hw.right.assigns hhead.assigns)
    exists last
    apply hhead.trans htail hw (closed_stmt stmt)
    intro x hx
    obtain ⟨body, hb, he⟩ := List.mem_map.mp hx
    subst he
    exact stmt.scopes_subset hb

theorem visit_false_body_slots : (body : Option BlockStatement) → {locals : List VariableId} →
    {ids : LocalIds} → {first pos : Nat} → ids.Walks locals first pos →
    ids.heap.names.Walkable locals (BlockOf.optionBlocks body) →
    Walked locals first pos (BlockOf.optionBlocks body) (body.toList.map (pos, ·)) ids
      (visit_false_body_and_assign_local_ids pos body ids)
  | none, locals, ids, first, pos, h, hw => by
    simp only [BlockOf.optionBlocks, visit_false_body_and_assign_local_ids]
    exact .refl h
  | some body, locals, ids, first, pos, h, hw => by
    simp only [BlockOf.optionBlocks] at hw ⊢
    simp only [visit_false_body_and_assign_local_ids]
    obtain ⟨_, ha, _⟩ := h.assign_until (Nat.le_refl pos) hw
    exact .block h (Nat.le_refl pos) hw (visit_block_slots body (hw.assigns ha).lists)

end

end

end Reowolf
