import Mathlib.Data.List.Nodup
import Reowolf.Protocol.DeclaredLocals

namespace Reowolf

mutual

-- The blocks in a statement, at any depth.
def Statement.blocks : Statement → List BlockStatement
  | .block body                                       => BlockOf.blocks body
  | .labeled _ _ body                                 => body.blocks
  | .if _ _ true_body false_body _                    =>
    BlockOf.blocks true_body ++ BlockOf.optionBlocks false_body
  | .while _ _ body _ | .synchronous _ body _         => BlockOf.blocks body
  | _                                                 => []

def BlockOf.blocks : BlockStatement → List BlockStatement
  | ⟨this, statements, end_block⟩ =>
    ⟨this, statements, end_block⟩ :: Statement.listBlocks statements

def Statement.listBlocks : List Statement → List BlockStatement
  | []            => []
  | stmt :: stmts => stmt.blocks ++ Statement.listBlocks stmts

def BlockOf.optionBlocks : Option BlockStatement → List BlockStatement
  | none      => []
  | some body => BlockOf.blocks body

end

-- The variables that are declared in blocks.
def BlockOf.variables (blocks : List BlockStatement) : List VariableId :=
  blocks.flatMap fun body => body.declares.map Prod.fst

@[simp]
theorem BlockOf.variables_append (blocks₁ blocks₂ : List BlockStatement) :
    BlockOf.variables (blocks₁ ++ blocks₂) =
      BlockOf.variables blocks₁ ++ BlockOf.variables blocks₂ :=
  List.flatMap_append

@[simp]
theorem BlockOf.variables_nil : BlockOf.variables [] = [] := rfl

@[simp]
theorem BlockOf.variables_cons (body : BlockStatement) (blocks : List BlockStatement) :
    BlockOf.variables (body :: blocks) =
      body.declares.map Prod.fst ++ BlockOf.variables blocks :=
  List.flatMap_cons

-- The blocks are as the parser leaves them.
structure Names.Fresh (names : Names) (blocks : List BlockStatement) : Prop where
  distinct  : (blocks.map BlockOf.this).Nodup
  declared  : (BlockOf.variables blocks).Nodup
  allocated : ∀ id ∈ BlockOf.variables blocks, id < names.arena.length
  empty     : ∀ body ∈ blocks, names.locals body.this = []

-- The locals that the pass has recorded for a block are the binding variables of the test in front
-- of it and then what it declares. The positions of the former are zero.
structure Names.Records (names : Names) (body : BlockStatement) : Prop where
  locals    : ∃ bound, names.locals body.this = bound ++ body.declares.map Prod.fst ∧
    ∀ id ∈ bound, (names.get id).relative_pos_in_block = 0
  allocated : ∀ id ∈ names.locals body.this, id < names.arena.length
  pos       : ∀ x ∈ body.declares, (names.get x.1).relative_pos_in_block = x.2

-- The pass has visited blocks, where some variables were bound before.
structure Names.Grows (bound : List VariableId) (blocks : List BlockStatement)
    (names names' : Names) : Prop where
  length     : names.arena.length ≤ names'.arena.length
  kept       : ∀ id < names.arena.length, id ∉ BlockOf.variables blocks → names'.get id = names.get id
  identifier : ∀ id < names.arena.length, (names'.get id).identifier = (names.get id).identifier
  other      : ∀ id ∉ blocks.map BlockOf.this, names'.locals id = names.locals id
  records    : ∀ body ∈ blocks, names'.Records body
  nodup      : (blocks.flatMap fun body => names'.locals body.this).Nodup
  mem        : ∀ body ∈ blocks, ∀ id ∈ names'.locals body.this,
    id ∈ bound ∨ id ∈ BlockOf.variables blocks ∨
      names.arena.length ≤ id ∧ id < names'.arena.length

section

variable {bound : List VariableId} {blocks blocks₁ blocks₂ : List BlockStatement}
variable {names names₁ names₂ : Names}

theorem Names.Records.of_eq {body : BlockStatement} (h : names.Records body)
    (hl : names₁.locals body.this = names.locals body.this)
    (hn : names.arena.length ≤ names₁.arena.length)
    (hg : ∀ id ∈ names.locals body.this, names₁.get id = names.get id) : names₁.Records body where
  locals := by
    obtain ⟨bound, he, hb⟩ := h.locals
    refine ⟨bound, by rw [hl, he], fun id hi => ?_⟩
    rw [hg id (he ▸ List.mem_append_left _ hi), hb id hi]
  allocated id hi := Nat.lt_of_lt_of_le (h.allocated id (hl ▸ hi)) hn
  pos x hx := by
    obtain ⟨bound, he, _⟩ := h.locals
    have hm : x.1 ∈ names.locals body.this :=
      he ▸ List.mem_append_right _ (List.mem_map_of_mem hx)
    rw [hg x.1 hm, h.pos x hx]

namespace Names.Fresh

theorem of_eq (h : names.Fresh blocks) (ha : names₁.arena.length = names.arena.length)
    (hl : names₁.locals = names.locals) : names₁.Fresh blocks where
  distinct        := h.distinct
  declared        := h.declared
  allocated id hi := ha ▸ h.allocated id hi
  empty body hb   := hl ▸ h.empty body hb

theorem left (h : names.Fresh (blocks₁ ++ blocks₂)) : names.Fresh blocks₁ where
  distinct        := by
    have := h.distinct
    rw [List.map_append] at this
    exact this.of_append_left
  declared        := (BlockOf.variables_append .. ▸ h.declared).of_append_left
  allocated id hi := h.allocated id (by simp [hi])
  empty body hb   := h.empty body (List.mem_append_left _ hb)

theorem right (h : names.Fresh (blocks₁ ++ blocks₂)) : names.Fresh blocks₂ where
  distinct        := by
    have := h.distinct
    rw [List.map_append] at this
    exact this.of_append_right
  declared        := (BlockOf.variables_append .. ▸ h.declared).of_append_right
  allocated id hi := h.allocated id (by simp [hi])
  empty body hb   := h.empty body (List.mem_append_right _ hb)

-- Visiting blocks leaves others as they were.
theorem grows (h : names.Fresh (blocks₁ ++ blocks₂)) (hg : Names.Grows bound blocks₁ names names₁) :
    names₁.Fresh blocks₂ where
  distinct        := h.right.distinct
  declared        := h.right.declared
  allocated id hi := Nat.lt_of_lt_of_le (h.right.allocated id hi) hg.length
  empty body hb   := by
    have hn := h.distinct
    rw [List.map_append, List.nodup_append'] at hn
    rw [hg.other _ fun hm => hn.2.2 hm (List.mem_map_of_mem hb), h.right.empty body hb]

end Names.Fresh

namespace Names.Grows

theorem refl (names : Names) : Names.Grows [] [] names names where
  length           := Nat.le_refl _
  kept _ _ _       := rfl
  identifier _ _   := rfl
  other _ _        := rfl
  records body hb  := by cases hb
  nodup            := by simp
  mem body hb      := by cases hb

theorem of_eq (ha : names₁.arena = names.arena) (hl : names₁.locals = names.locals) :
    Names.Grows [] [] names names₁ where
  length           := ha ▸ Nat.le_refl _
  kept id _ _      := by simp only [Names.get, ha]
  identifier id _  := by simp only [Names.get, ha]
  other id _       := by rw [hl]
  records body hb  := by cases hb
  nodup            := by simp
  mem body hb      := by cases hb

theorem trans (h₁ : Names.Grows [] blocks₁ names names₁) (hf : names.Fresh (blocks₁ ++ blocks₂))
    (h₂ : Names.Grows [] blocks₂ names₁ names₂) :
    Names.Grows [] (blocks₁ ++ blocks₂) names names₂ := by
  have hblocks := hf.distinct
  rw [List.map_append, List.nodup_append'] at hblocks
  have hvars := hf.declared
  rw [BlockOf.variables_append, List.nodup_append'] at hvars
  -- The second visit leaves the first blocks alone.
  have hlocals : ∀ body ∈ blocks₁, names₂.locals body.this = names₁.locals body.this :=
    fun body hb => h₂.other _ fun hm => hblocks.2.2 (List.mem_map_of_mem hb) hm
  have hmem₁ : ∀ body ∈ blocks₁, ∀ id ∈ names₁.locals body.this,
      id ∈ BlockOf.variables blocks₁ ∨ names.arena.length ≤ id ∧ id < names₁.arena.length :=
    fun body hb id hi => (h₁.mem body hb id hi).resolve_left List.not_mem_nil
  have hmem₂ : ∀ body ∈ blocks₂, ∀ id ∈ names₂.locals body.this,
      id ∈ BlockOf.variables blocks₂ ∨ names₁.arena.length ≤ id ∧ id < names₂.arena.length :=
    fun body hb id hi => (h₂.mem body hb id hi).resolve_left List.not_mem_nil
  exact {
    length := Nat.le_trans h₁.length h₂.length
    kept id hl hm := by
      simp only [BlockOf.variables_append, List.mem_append, not_or] at hm
      rw [h₂.kept id (Nat.lt_of_lt_of_le hl h₁.length) hm.2, h₁.kept id hl hm.1]
    identifier id hl := by
      rw [h₂.identifier id (Nat.lt_of_lt_of_le hl h₁.length), h₁.identifier id hl]
    other id hi := by
      simp only [List.map_append, List.mem_append, not_or] at hi
      rw [h₂.other id hi.2, h₁.other id hi.1]
    records body hb := by
      cases List.mem_append.mp hb
      case inr hb => exact h₂.records body hb
      case inl hb =>
        have hr := h₁.records body hb
        apply hr.of_eq (hlocals body hb) h₂.length
        intro id hi
        apply h₂.kept id (hr.allocated id hi)
        intro hv
        rcases hmem₁ body hb id hi with hm | hm
        · exact hvars.2.2 hm hv
        · exact Nat.not_lt_of_ge hm.1 (hf.right.allocated id hv)
    nodup := by
      rw [List.flatMap_append, List.nodup_append']
      have he : (blocks₁.flatMap fun body => names₂.locals body.this) =
          blocks₁.flatMap fun body => names₁.locals body.this :=
        List.flatMap_congr hlocals
      refine ⟨he ▸ h₁.nodup, h₂.nodup, ?_⟩
      rw [he]
      intro id hi hi'
      obtain ⟨body₁, hb₁, hi₁⟩ := List.mem_flatMap.mp hi
      obtain ⟨body₂, hb₂, hi₂⟩ := List.mem_flatMap.mp hi'
      rcases hmem₁ body₁ hb₁ id hi₁ with hm | hm <;> rcases hmem₂ body₂ hb₂ id hi₂ with hm' | hm'
      · exact hvars.2.2 hm hm'
      · exact Nat.not_lt_of_ge (Nat.le_trans h₁.length hm'.1) (hf.left.allocated id hm)
      · exact Nat.not_lt_of_ge hm.1 (hf.right.allocated id hm')
      · exact Nat.not_lt_of_ge hm'.1 hm.2
    mem body hb id hi := by
      right
      simp only [BlockOf.variables_append, List.mem_append]
      cases List.mem_append.mp hb
      case inl hb =>
        rcases hmem₁ body hb id (hlocals body hb ▸ hi) with hm | hm
        · exact .inl (.inl hm)
        · exact .inr ⟨hm.1, Nat.lt_of_lt_of_le hm.2 h₂.length⟩
      case inr hb =>
        rcases hmem₂ body hb id hi with hm | hm
        · exact .inl (.inr hm)
        · exact .inr ⟨Nat.le_trans h₁.length hm.1, hm.2⟩ }

end Names.Grows

@[simp]
theorem BlockOf.blocks_eq (body : BlockStatement) :
    body.blocks = body :: Statement.listBlocks body.statements := by
  cases body
  simp only [BlockOf.blocks]

@[simp]
theorem Statement.listBlocks_nil : Statement.listBlocks [] = [] := by
  simp only [Statement.listBlocks]

@[simp]
theorem Statement.listBlocks_cons (stmt : Statement) (stmts : List Statement) :
    Statement.listBlocks (stmt :: stmts) = stmt.blocks ++ Statement.listBlocks stmts := by
  simp only [Statement.listBlocks]

-- A block may be visited when the test in front of it has bound the given variables.
structure Names.Opens (names : Names) (bound : List VariableId) (body : BlockStatement) : Prop where
  distinct  : (body.blocks.map BlockOf.this).Nodup
  declared  : (BlockOf.variables body.blocks).Nodup
  allocated : ∀ id ∈ BlockOf.variables body.blocks, id < names.arena.length
  empty     : ∀ nested ∈ Statement.listBlocks body.statements, names.locals nested.this = []
  locals    : names.locals body.this = bound
  nodup     : bound.Nodup
  bound     : ∀ id ∈ bound, id ∉ BlockOf.variables body.blocks ∧ id < names.arena.length ∧
    (names.get id).relative_pos_in_block = 0

namespace Names.Opens

variable {body : BlockStatement}

theorem of_fresh (h : names.Fresh body.blocks) : names.Opens [] body where
  distinct       := h.distinct
  declared       := h.declared
  allocated      := h.allocated
  empty nested hn := h.empty nested (by simp [hn])
  locals         := h.empty body (by simp)
  nodup          := List.nodup_nil
  bound id hi    := by cases hi

-- The binding variables of a test are new.
theorem of_binds {identifiers : List Identifier} (h : names.Fresh body.blocks)
    (hb : Names.Binds (some body.this) names names₁ identifiers) :
    names₁.Opens (List.range' names.arena.length identifiers.length) body := by
  have hlen : names₁.arena.length = names.arena.length + identifiers.length := by simp [hb.arena]
  exact {
    distinct        := h.distinct
    declared        := h.declared
    allocated id hi := by
      have : id < names.arena.length := h.allocated id hi
      rw [hlen]
      exact Nat.lt_add_right _ this
    empty nested hn := by
      have hd := h.distinct
      simp only [BlockOf.blocks_eq, List.map_cons, List.nodup_cons] at hd
      have hne : body.this ≠ nested.this := fun he => hd.1 (he ▸ List.mem_map_of_mem hn)
      rw [hb.locals, h.empty nested (by simp [hn])]
      simp [hne]
    locals          := by
      rw [hb.locals, h.empty body (by simp)]
      simp
    nodup           := List.nodup_range'
    bound id hi     := by
      have hi := List.mem_range'_1.mp hi
      refine ⟨fun hm => Nat.not_lt_of_ge hi.1 (h.allocated id hm), hlen ▸ hi.2, ?_⟩
      have hget : ∃ identifier, names₁.get id = ⟨identifier, 0, 0⟩ := by
        have hi' : id - names.arena.length < identifiers.length :=
          Nat.sub_lt_left_of_lt_add hi.1 hi.2
        exists identifiers[id - names.arena.length]
        simp only [Names.get, hb.arena, List.getD_eq_getElem?_getD]
        rw [List.getElem?_append_right hi.1, List.getElem?_map, List.getElem?_eq_getElem hi']
        rfl
      obtain ⟨_, hget⟩ := hget
      rw [hget] }

-- The breadth-first pass over the statements of the block.
theorem records (h : names.Opens bound body) : (names.declare body.this body.declares).Records body := by
  have hd := h.declared
  rw [BlockOf.blocks_eq, BlockOf.variables_cons, List.nodup_append'] at hd
  have ha : ∀ id ∈ body.declares.map Prod.fst, id < names.arena.length :=
    fun id hi => h.allocated id (by simp [hi])
  have hnew : ∀ id ∈ bound, id ∉ body.declares.map Prod.fst :=
    fun id hi hm => (h.bound id hi).1 (by simp [hm])
  exact {
    locals := by
      refine ⟨bound, by rw [Names.declare_locals, Function.update_self, h.locals], fun id hi => ?_⟩
      rw [Names.get_declare_of_not_mem (hnew id hi)]
      exact (h.bound id hi).2.2
    allocated id hi := by
      rw [Names.declare_locals, Function.update_self, h.locals] at hi
      rw [Names.declare_length]
      exact (List.mem_append.mp hi).elim (fun hi => (h.bound id hi).2.1) (ha id)
    pos x hx := Names.pos_declare hd.1 (ha x.1 (List.mem_map_of_mem hx)) hx }

theorem fresh (h : names.Opens bound body) :
    (names.declare body.this body.declares).Fresh (Statement.listBlocks body.statements) := by
  have hd := h.declared
  rw [BlockOf.blocks_eq, BlockOf.variables_cons, List.nodup_append'] at hd
  have hb := h.distinct
  rw [BlockOf.blocks_eq, List.map_cons, List.nodup_cons] at hb
  exact {
    distinct        := hb.2
    declared        := hd.2.1
    allocated id hi := by
      rw [Names.declare_length]
      exact h.allocated id (by simp [hi])
    empty nested hn := by
      have hne : nested.this ≠ body.this := fun he => hb.1 (he ▸ List.mem_map_of_mem hn)
      rw [Names.declare_locals, Function.update_of_ne hne, h.empty nested hn] }

-- Visiting the statements of the block after that.
theorem grows (h : names.Opens bound body)
    (hg : Names.Grows [] (Statement.listBlocks body.statements)
      (names.declare body.this body.declares) names₂) :
    Names.Grows bound body.blocks names names₂ := by
  have hd := h.declared
  rw [BlockOf.blocks_eq, BlockOf.variables_cons, List.nodup_append'] at hd
  have hb := h.distinct
  rw [BlockOf.blocks_eq, List.map_cons, List.nodup_cons] at hb
  have hr := h.records
  have hlocals : names₂.locals body.this = bound ++ body.declares.map Prod.fst := by
    rw [hg.other _ hb.1, Names.declare_locals, Function.update_self, h.locals]
  have hmem : ∀ nested ∈ Statement.listBlocks body.statements, ∀ id ∈ names₂.locals nested.this,
      id ∈ BlockOf.variables (Statement.listBlocks body.statements) ∨
        names.arena.length ≤ id ∧ id < names₂.arena.length := by
    intro nested hn id hi
    have hm := (hg.mem nested hn id hi).resolve_left List.not_mem_nil
    rwa [Names.declare_length] at hm
  have hlen := hg.length
  have hbefore : ∀ id ∈ bound ++ body.declares.map Prod.fst, id < names.arena.length ∧
      id ∉ BlockOf.variables (Statement.listBlocks body.statements) := by
    intro id hi
    cases List.mem_append.mp hi
    case inl hi =>
      exact ⟨(h.bound id hi).2.1, fun hm => (h.bound id hi).1 (by simp [hm])⟩
    case inr hi => exact ⟨h.allocated id (by simp [hi]), hd.2.2 hi⟩
  rw [Names.declare_length] at hlen
  rw [BlockOf.blocks_eq]
  exact {
    length := hlen
    kept id hl hm := by
      simp only [BlockOf.variables_cons, List.mem_append, not_or] at hm
      rw [hg.kept id (by simpa using hl) hm.2, Names.get_declare_of_not_mem hm.1]
    identifier id hl := by rw [hg.identifier id (by simpa using hl), Names.identifier_declare]
    other id hi := by
      simp only [List.map_cons, List.mem_cons, not_or] at hi
      rw [hg.other id hi.2, Names.declare_locals, Function.update_of_ne hi.1]
    records nested hn := by
      cases List.mem_cons.mp hn
      case inr hn => exact hg.records nested hn
      case inl hn =>
        subst hn
        apply hr.of_eq (hg.other _ hb.1) hg.length
        intro id hi
        rw [Names.declare_locals, Function.update_self, h.locals] at hi
        exact hg.kept id (by simpa using (hbefore id hi).1) (hbefore id hi).2
    nodup := by
      rw [List.flatMap_cons, List.nodup_append', hlocals]
      refine ⟨?_, hg.nodup, ?_⟩
      · rw [List.nodup_append']
        exact ⟨h.nodup, hd.1, fun id hi hm => (h.bound id hi).1 (by simp [hm])⟩
      · intro id hi hi'
        obtain ⟨nested, hn, hi'⟩ := List.mem_flatMap.mp hi'
        rcases hmem nested hn id hi' with hm | hm
        · exact (hbefore id hi).2 hm
        · exact Nat.not_lt_of_ge hm.1 (hbefore id hi).1
    mem nested hn id hi := by
      simp only [BlockOf.variables_cons, List.mem_append]
      cases List.mem_cons.mp hn
      case inl hn =>
        subst hn
        rw [hlocals] at hi
        exact (List.mem_append.mp hi).imp_right (fun hi => .inl (.inl hi))
      case inr hn =>
        rcases hmem nested hn id hi with hm | hm
        · exact .inr (.inl (.inr hm))
        · exact .inr (.inr hm) }

end Names.Opens

-- Together with the test that binds variables.
theorem Names.Grows.of_binds {body : BlockStatement} {identifiers : List Identifier}
    (hb : Names.Binds (some body.this) names names₁ identifiers)
    (hg : Names.Grows (List.range' names.arena.length identifiers.length) body.blocks names₁ names₂) :
    Names.Grows [] body.blocks names names₂ := by
  have hlen : names₁.arena.length = names.arena.length + identifiers.length := by simp [hb.arena]
  have hget : ∀ id < names.arena.length, names₁.get id = names.get id := by
    intro id hi
    simp only [Names.get, hb.arena, List.getD_eq_getElem?_getD, List.getElem?_append_left hi]
  have hlt : ∀ id < names.arena.length, id < names₁.arena.length :=
    fun id hi => hlen ▸ Nat.lt_add_right _ hi
  exact {
    length := Nat.le_trans (hlen ▸ Nat.le_add_right _ _) hg.length
    kept id hl hm := by rw [hg.kept id (hlt id hl) hm, hget id hl]
    identifier id hl := by rw [hg.identifier id (hlt id hl), hget id hl]
    other id hi := by
      have hne : some body.this ≠ some id := by
        intro he
        cases he
        exact hi (by simp)
      rw [hg.other id hi, hb.locals, if_neg hne, List.append_nil]
    records := hg.records
    nodup := hg.nodup
    mem nested hn id hi := by
      right
      rcases hg.mem nested hn id hi with hm | hm | hm
      · have hm := List.mem_range'_1.mp hm
        exact .inr ⟨hm.1, Nat.lt_of_lt_of_le (hlen ▸ hm.2) hg.length⟩
      · exact .inl hm
      · exact .inr ⟨Nat.le_trans (hlen ▸ Nat.le_add_right _ _) hm.1, hm.2⟩ }

-- An expression that is no test binds no variables.
theorem Names.Binds.grows {identifiers : List Identifier}
    (h : Names.Binds Option.none names names₁ identifiers) : Names.Grows [] [] names names₁ := by
  have hi := h.none rfl
  subst hi
  exact .of_eq (by simp [h.arena]) (funext fun id => by simp [h.locals])

end

section

variable {ctx : LinkCtx} {t : Traversal} {expr : Expression} {σ σ' : LinkState}

theorem visit_expr_in_state_binds (h : visit_expr_in_state ctx t expr σ = .ok σ') :
    ∃ identifiers, Names.Binds t.in_test_expr σ.names σ'.names identifiers := by
  simp only [visit_expr_in_state, Except.bind_eq_ok] at h
  obtain ⟨names, hv, he⟩ := h
  cases he
  exact visit_expr_binds expr hv

theorem visit_expr_in_state_grows (ht : t.in_test_expr = none)
    (h : visit_expr_in_state ctx t expr σ = .ok σ') : Names.Grows [] [] σ.names σ'.names := by
  obtain ⟨_, hb⟩ := visit_expr_in_state_binds h
  rw [ht] at hb
  exact hb.grows

end

-- A procedure as the parser leaves it, with the heap that the pass finds.
structure ParsedProcedure where
  ctx        : LinkCtx
  definition : Definition
  heap       : Heap
  fresh      : heap.names.Fresh definition.body.blocks
  labels     : ∀ body ∈ definition.body.blocks, heap.labels body.this = []
  nodup      : (definition.parameters ++ BlockOf.variables definition.body.blocks).Nodup
  allocated  : ∀ id ∈ definition.parameters, id < heap.names.arena.length

-- The blocks around a place in a procedure, innermost first, each with the position of the statement
-- in it that the place is in.
abbrev Path := List (BlockStatement × Nat)

variable {ctx : LinkCtx}

mutual

theorem visit_stmt_grows : (stmt : Statement) → {t : Traversal} → {σ σ' : LinkState} →
    t.in_test_expr = none → σ.names.Fresh stmt.blocks → visit_stmt ctx t stmt σ = .ok σ' →
    Names.Grows [] stmt.blocks σ.names σ'.names
  | .block body, t, σ, σ', ht, hf, h => by
    simp only [Statement.blocks] at hf ⊢
    simp only [visit_stmt] at h
    exact visit_block_stmt_grows body ht (.of_fresh hf) h
  | .memory this id, t, σ, σ', ht, hf, h | .channel this from_id to_id, t, σ, σ', ht, hf, h => by
    simp only [visit_stmt] at h
    cases h
    simp only [Statement.blocks, LinkState.replace_names]
    exact .refl _
  | .labeled this label body, t, σ, σ', ht, hf, h => by
    simp only [Statement.blocks] at hf ⊢
    simp only [visit_stmt] at h
    exact visit_stmt_grows body ht hf h
  | .if this test true_body false_body end_if, t, σ, σ', ht, hf, h => by
    simp only [Statement.blocks] at hf ⊢
    simp only [visit_stmt, Except.bind_eq_ok] at h
    obtain ⟨σ₁, h₁, σ₂, h₂, σ₃, h₃, h₄⟩ := h
    cases h₄
    obtain ⟨identifiers, hb⟩ := visit_expr_in_state_binds h₁
    have hbody := visit_block_stmt_grows true_body ht
      (by simpa using Names.Opens.of_binds hf.left hb) h₂
    simp only [LinkState.erase_names] at hbody
    have htrue : Names.Grows [] true_body.blocks σ.names σ₂.names := .of_binds hb hbody
    have hfalse := visit_false_body_grows false_body ht (by simpa using hf.grows htrue) h₃
    simp only [LinkState.erase_names] at hfalse
    exact htrue.trans hf hfalse
  | .while this test body end_while, t, σ, σ', ht, hf, h => by
    simp only [Statement.blocks] at hf ⊢
    simp only [visit_stmt, Except.bind_eq_ok] at h
    obtain ⟨σ₁, h₁, σ₂, h₂, h₃⟩ := h
    cases h₃
    obtain ⟨identifiers, hb⟩ := visit_expr_in_state_binds h₁
    have hbody := visit_block_stmt_grows body
      (t := { t with in_while := some ⟨this, body.this, end_while⟩ }) ht
      (by simpa using Names.Opens.of_binds hf hb) h₂
    simp only [LinkState.erase_names] at hbody ⊢
    exact .of_binds hb hbody
  | .break this label, t, σ, σ', ht, hf, h | .continue this label, t, σ, σ', ht, hf, h => by
    simp only [visit_stmt, Except.bind_eq_ok] at h
    obtain ⟨target, _, h⟩ := h
    cases h
    simp only [Statement.blocks]
    exact .of_eq (by simp [LinkState.set_target]) (by simp [LinkState.set_target])
  | .synchronous this body end_sync, t, σ, σ', ht, hf, h => by
    simp only [Statement.blocks] at hf ⊢
    simp only [visit_stmt] at h
    split at h; · cases h
    split at h; · cases h
    simp only [Except.bind_eq_ok] at h
    obtain ⟨σ₁, h₁, h₂⟩ := h
    cases h₂
    have hbody := visit_block_stmt_grows body (t := { t with in_sync := some this }) ht
      (by simpa using Names.Opens.of_fresh hf) h₁
    simpa using hbody
  | .return this expression, t, σ, σ', ht, hf, h => by
    simp only [visit_stmt] at h
    split at h; · cases h
    simp only [Statement.blocks]
    have hg := visit_expr_in_state_grows (t := { t with expr_parent := .return this }) ht h
    simpa using hg
  | .goto this label, t, σ, σ', ht, hf, h => by
    simp only [visit_stmt, Except.bind_eq_ok] at h
    obtain ⟨target, _, h⟩ := h
    split at h; · cases h
    cases h
    simp only [Statement.blocks]
    exact .of_eq (by simp [LinkState.set_target]) (by simp [LinkState.set_target])
  | .new this call method arguments definition, t, σ, σ', ht, hf, h => by
    simp only [visit_stmt] at h
    split at h; · cases h
    simp only [Except.bind_eq_ok] at h
    obtain ⟨names, h₁, h₂⟩ := h
    cases h₂
    simp only [Statement.blocks]
    obtain ⟨_, hb⟩ := visit_expr_binds _ h₁
    have hb : Names.Binds none _ names _ := ht ▸ hb
    simpa using hb.grows
  | .expression this expression, t, σ, σ', ht, hf, h => by
    simp only [visit_stmt] at h
    simp only [Statement.blocks]
    have hg := visit_expr_in_state_grows (t := { t with expr_parent := .expressionStmt this }) ht h
    simpa using hg

theorem visit_block_stmt_grows : (body : BlockStatement) → {t : Traversal} → {σ σ' : LinkState} →
    {bound : List VariableId} → t.in_test_expr = none → σ.names.Opens bound body →
    visit_block_stmt ctx t body σ = .ok σ' → Names.Grows bound body.blocks σ.names σ'.names
  | ⟨this, statements, end_block⟩, t, σ, σ', bound, ht, ho, h => by
    simp only [visit_block_stmt, Except.bind_eq_ok] at h
    obtain ⟨σ₁, h₁, σ₂, h₂, h₃⟩ := h
    cases h₃
    have hscope : (t.enter ⟨this, statements, end_block⟩).cur_scope =
        ⟨this, t.relative_pos_in_block⟩ :: t.cur_scope := rfl
    have hd := visit_statements_declares hscope h₁
    have hg := visit_stmts_grows statements (t := t.enter ⟨this, statements, end_block⟩) ht
      (by simpa [hd.names, BlockOf.declares] using ho.fresh) h₂
    simp only [LinkState.replace_names, hd.names] at hg ⊢
    exact ho.grows hg

theorem visit_stmts_grows : (stmts : List Statement) → {t : Traversal} → {pos : Nat} →
    {σ σ' : LinkState} → t.in_test_expr = none → σ.names.Fresh (Statement.listBlocks stmts) →
    visit_stmts ctx t pos stmts σ = .ok σ' →
    Names.Grows [] (Statement.listBlocks stmts) σ.names σ'.names
  | [], t, pos, σ, σ', ht, hf, h => by
    simp only [visit_stmts] at h
    cases h
    simpa using .refl _
  | stmt :: stmts, t, pos, σ, σ', ht, hf, h => by
    simp only [visit_stmts, Except.bind_eq_ok] at h
    obtain ⟨σ₁, h₁, h₂⟩ := h
    rw [Statement.listBlocks_cons] at hf ⊢
    have hhead := visit_stmt_grows stmt (t := { t with relative_pos_in_block := pos }) ht hf.left h₁
    have htail := visit_stmts_grows stmts ht (hf.grows hhead) h₂
    exact hhead.trans hf htail

theorem visit_false_body_grows : (body : Option BlockStatement) → {t : Traversal} →
    {end_if : StatementId} → {σ σ' : LinkState} → t.in_test_expr = none →
    σ.names.Fresh (BlockOf.optionBlocks body) → visit_false_body ctx t end_if body σ = .ok σ' →
    Names.Grows [] (BlockOf.optionBlocks body) σ.names σ'.names
  | none, t, end_if, σ, σ', ht, hf, h => by
    simp only [visit_false_body] at h
    cases h
    simpa only [BlockOf.optionBlocks] using .refl _
  | some body, t, end_if, σ, σ', ht, hf, h => by
    simp only [visit_false_body, Except.bind_eq_ok] at h
    obtain ⟨σ₁, h₁, h₂⟩ := h
    cases h₂
    simp only [BlockOf.optionBlocks] at hf ⊢
    have hbody := visit_block_stmt_grows body ht (.of_fresh hf) h₁
    simpa using hbody

end

end Reowolf
