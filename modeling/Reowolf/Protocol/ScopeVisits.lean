import Mathlib.Algebra.GroupWithZero.Nat
import Mathlib.Logic.Relation
import Reowolf.Protocol.BlockScopes
import Reowolf.Protocol.StructuredControl

namespace Reowolf

-- The part of a procedure that the pass is about to visit.
inductive Work
  | block (body : BlockStatement)
  | scanned (stmt : Statement) -- in the breadth-first pass
  | add (id : VariableId)      -- a variable that a scanned statement declares
  | stmt (stmt : Statement)
  | expr (expr : Expression)

-- A visit, with the blocks around it and what the traversal has come to.
structure Visit where
  work : Work
  path : Path
  t    : Traversal
  σ    : LinkState

def Path.pos : Path → Nat
  | []            => 0
  | (_, pos) :: _ => pos

def Path.scopes : Path → List Scope
  | []                => []
  | (body, _) :: path => ⟨body.this, Path.pos path⟩ :: scopes path

-- The number of places that statements take in their block.
def Statement.listWidth (stmts : List Statement) : Nat := (stmts.map Statement.width).sum

-- The visits that a visit makes. The state is the one that the parts that come first lead to.
inductive Visit.Calls (ctx : LinkCtx) : Visit → Visit → Prop
  | scanned {path t σ σ' body before stmt after} :
    BlockOf.statements body = before ++ stmt :: after →
    visit_statements_for_locals_labels_and_in_sync ctx (t.enter body) 0 before σ = .ok σ' →
    Calls ctx ⟨.block body, path, t, σ⟩
      ⟨.scanned stmt, (body, Statement.listWidth before) :: path, t.enter body, σ'⟩
  | memory {path t σ this id} :
    Calls ctx ⟨.scanned (.memory this id), path, t, σ⟩ ⟨.add id, path, t, σ⟩
  | channel_from {path t σ this from_id to_id} :
    Calls ctx ⟨.scanned (.channel this from_id to_id), path, t, σ⟩ ⟨.add from_id, path, t, σ⟩
  | channel_to {path t σ σ' this from_id to_id} :
    add_local_to_state ctx t (Path.pos path) from_id σ = .ok σ' →
    Calls ctx ⟨.scanned (.channel this from_id to_id), path, t, σ⟩ ⟨.add to_id, path, t, σ'⟩
  | scanned_labeled {path t σ σ' this label body} :
    checked_add_label t (Path.pos path) this label body σ = .ok σ' →
    Calls ctx ⟨.scanned (.labeled this label body), path, t, σ⟩ ⟨.scanned body, path, t, σ'⟩
  | stmt {path t σ σ₁ σ₂ body before stmt after} :
    BlockOf.statements body = before ++ stmt :: after →
    visit_statements_for_locals_labels_and_in_sync ctx (t.enter body) 0 body.statements σ = .ok σ₁ →
    visit_stmts ctx (t.enter body) 0 before (σ₁.assign_and_replace_next_stmt body.this) = .ok σ₂ →
    Calls ctx ⟨.block body, path, t, σ⟩
      ⟨.stmt stmt, (body, Statement.listWidth before) :: path,
        { t.enter body with relative_pos_in_block := Statement.listWidth before }, σ₂⟩
  | block {path t σ body} : Calls ctx ⟨.stmt (.block body), path, t, σ⟩ ⟨.block body, path, t, σ⟩
  | labeled {path t σ this label body} :
    Calls ctx ⟨.stmt (.labeled this label body), path, t, σ⟩ ⟨.stmt body, path, t, σ⟩
  | if_test {path t σ this test true_body false_body end_if} :
    Calls ctx ⟨.stmt (.if this test true_body false_body end_if), path, t, σ⟩
      ⟨.expr test, path,
        { t with in_test_expr := some (BlockOf.this true_body), expr_parent := .if this }, σ⟩
  | true_body {path t σ σ' this test true_body false_body end_if} :
    visit_expr_in_state ctx
      { t with in_test_expr := some (BlockOf.this true_body), expr_parent := .if this } test σ = .ok σ' →
    Calls ctx ⟨.stmt (.if this test true_body false_body end_if), path, t, σ⟩
      ⟨.block true_body, path, t, σ'.assign_then_erase_next_stmt this⟩
  | false_body {path t σ σ₁ σ₂ this test true_body body end_if} :
    visit_expr_in_state ctx
      { t with in_test_expr := some (BlockOf.this true_body), expr_parent := .if this } test σ = .ok σ₁ →
    visit_block_stmt ctx t true_body (σ₁.assign_then_erase_next_stmt this) = .ok σ₂ →
    Calls ctx ⟨.stmt (.if this test true_body (some body) end_if), path, t, σ⟩
      ⟨.block body, path, t, σ₂.assign_then_erase_next_stmt end_if⟩
  | while_test {path t σ this test body end_while} :
    Calls ctx ⟨.stmt (.while this test body end_while), path, t, σ⟩
      ⟨.expr test, path, { t with
        in_while := some ⟨this, BlockOf.this body, end_while⟩, in_test_expr := some (BlockOf.this body),
        expr_parent := .while this }, σ⟩
  | while_body {path t σ σ' this test body end_while} :
    visit_expr_in_state ctx { t with
      in_while := some ⟨this, BlockOf.this body, end_while⟩, in_test_expr := some (BlockOf.this body),
      expr_parent := .while this } test σ = .ok σ' →
    Calls ctx ⟨.stmt (.while this test body end_while), path, t, σ⟩
      ⟨.block body, path, { t with in_while := some ⟨this, BlockOf.this body, end_while⟩ },
        σ'.assign_then_erase_next_stmt this⟩
  | synchronous {path t σ this body end_sync} :
    t.in_sync = none → t.is_primitive →
    Calls ctx ⟨.stmt (.synchronous this body end_sync), path, t, σ⟩
      ⟨.block body, path, { t with in_sync := some this }, σ.assign_then_erase_next_stmt this⟩
  | «return» {path t σ this expression} :
    t.is_function →
    Calls ctx ⟨.stmt (.return this expression), path, t, σ⟩
      ⟨.expr expression, path, { t with expr_parent := .return this },
        σ.assign_then_erase_next_stmt this⟩
  | new {path t σ this call method arguments definition} :
    t.is_composite →
    Calls ctx ⟨.stmt (.new this call method arguments definition), path, t, σ⟩
      ⟨.expr (.call call method arguments definition), path, { t with expr_parent := .new this },
        σ.assign_and_replace_next_stmt this⟩
  | expression {path t σ this expression} :
    Calls ctx ⟨.stmt (.expression this expression), path, t, σ⟩
      ⟨.expr expression, path, { t with expr_parent := .expressionStmt this },
        σ.assign_and_replace_next_stmt this⟩
  | child {path t σ expr before child after} {names names' : Names} :
    Expression.children expr = before ++ child :: after →
    expr.Proceeds ctx t (LinkState.toHeap σ).names names →
    visit_children ctx t expr 0 before names = .ok names' →
    Calls ctx ⟨.expr expr, path, t, σ⟩
      ⟨.expr child, path, t.descend expr before.length, { σ with names := names' }⟩

-- Where the visit of a procedure starts.
def ParsedProcedure.start (p : ParsedProcedure) : Visit where
  work := .block p.definition.body
  path := []
  t    := .new p.definition
  σ    := { assign_parameter_ids p.definition.parameters 0 p.heap with
    prev_stmt := none
    names := { (assign_parameter_ids p.definition.parameters 0 p.heap).names with
      next_expr_index := 0 } }

-- A visit that the pass makes in the procedure.
def ParsedProcedure.Reaches (p : ParsedProcedure) (v : Visit) : Prop :=
  Relation.ReflTransGen (Visit.Calls p.ctx) p.start v

-- What is recorded for the blocks around a visit, of which none is among the blocks to be visited.
structure Path.Placed (path : Path) (σ : LinkState) (blocks : List BlockStatement) : Prop where
  records : ∀ x ∈ path, σ.names.Records x.1
  labels  : ∀ x ∈ path, ∃ in_sync, σ.labels x.1.this = x.1.labelsAt in_sync
  unique  : ((path.flatMap fun x => σ.labels x.1.this).map (·.label)).Nodup
  apart   : ∀ x ∈ path, x.1.this ∉ blocks.map BlockOf.this
  others  : ∀ x ∈ path, ∀ id ∈ σ.names.locals x.1.this, id ∉ BlockOf.variables blocks
  empty   : ∀ body ∈ blocks, σ.labels body.this = []

-- The variables are still to be added to the innermost block.
structure Path.Scanning (path : Path) (names : Names) (ids : List VariableId) : Prop where
  inside : path ≠ []
  nodup  : ids.Nodup
  apart  : ∀ id ∈ ids, ∀ x ∈ path, id ∉ names.locals x.1.this
  before : ∀ x ∈ path.head?, ∀ id ∈ names.locals x.1.this, (names.get id).relative_pos_in_block ≤ x.2

def Visit.Situated (v : Visit) : Prop :=
  match v.work with
  | .block body   =>
    v.t.relative_pos_in_block = v.path.pos ∧ v.t.in_test_expr = none ∧
      v.path.Placed v.σ body.blocks ∧ ∃ bound, v.σ.names.Opens bound body
  | .scanned stmt => v.path.Scanning v.σ.names stmt.declares
  | .add id       => v.path.Scanning v.σ.names [id]
  | .stmt stmt    =>
    v.t.relative_pos_in_block = v.path.pos ∧ v.t.in_test_expr = none ∧
      v.path.Placed v.σ stmt.blocks ∧ v.σ.names.Fresh stmt.blocks
  | .expr _       =>
    v.t.relative_pos_in_block = v.path.pos ∧ ∀ block, v.t.in_test_expr = some block →
      ∀ id ∈ v.σ.names.locals block, id < v.σ.names.arena.length

-- The traversal state fits the place that the pass has come to.
structure Visit.Invariant (definition : Definition) (v : Visit) : Prop where
  definition : v.t.definition = definition
  scopes     : v.t.cur_scope = v.path.scopes
  situated   : v.Situated

-- A part of the pass that is about these blocks leaves others alone.
structure LinkState.Frames (blocks : List BlockStatement) (σ σ' : LinkState) : Prop where
  length : σ.names.arena.length ≤ σ'.names.arena.length
  kept   : ∀ id < σ.names.arena.length, id ∉ BlockOf.variables blocks →
    σ'.names.get id = σ.names.get id
  locals : ∀ id ∉ blocks.map BlockOf.this, σ'.names.locals id = σ.names.locals id
  labels : ∀ id ∉ blocks.map BlockOf.this, σ'.labels id = σ.labels id

section

variable {path : Path} {σ σ₁ σ₂ : LinkState} {blocks blocks₁ blocks₂ : List BlockStatement}

theorem BlockOf.variables_subset (h : blocks₁ ⊆ blocks) :
    BlockOf.variables blocks₁ ⊆ BlockOf.variables blocks := by
  intro _ hi
  obtain ⟨body, hb, hi⟩ := List.mem_flatMap.mp hi
  exact List.mem_flatMap.mpr ⟨body, h hb, hi⟩

theorem Names.Grows.frames {bound : List VariableId}
    (h : Names.Grows bound blocks σ.names σ₁.names)
    (hl : ∀ id ∉ blocks.map BlockOf.this, σ₁.labels id = σ.labels id) :
    LinkState.Frames blocks σ σ₁ where
  length := h.length
  kept   := h.kept
  locals := h.other
  labels := hl

theorem Names.Binds.frames {body : BlockStatement} {identifiers : List Identifier}
    (h : Names.Binds (some body.this) σ.names σ₁.names identifiers) (hl : σ₁.labels = σ.labels) :
    LinkState.Frames [body] σ σ₁ where
  length      := by simp [h.arena]
  kept id hi _ := by
    simp only [Names.get, h.arena, List.getD_eq_getElem?_getD, List.getElem?_append_left hi]
  locals id hi := by
    have hne : body.this ≠ id := fun he => hi (by simp [he])
    rw [h.locals]
    simp [hne]
  labels _ _  := by rw [hl]

namespace Path.Placed

theorem frames (h : path.Placed σ blocks) (hf : LinkState.Frames blocks₁ σ σ₁)
    (h₁ : blocks₁ ⊆ blocks) (h₂ : blocks₂ ⊆ blocks)
    (he : ∀ body ∈ blocks₂, σ₁.labels body.this = []) : path.Placed σ₁ blocks₂ := by
  have hthis : ∀ x ∈ path, x.1.this ∉ blocks₁.map BlockOf.this :=
    fun x hx hm => h.apart x hx (List.map_subset _ h₁ hm)
  have hlabels : ∀ x ∈ path, σ₁.labels x.1.this = σ.labels x.1.this :=
    fun x hx => hf.labels _ (hthis x hx)
  exact {
    records x hx := by
      apply (h.records x hx).of_eq (hf.locals _ (hthis x hx)) hf.length
      intro id hi
      exact hf.kept id ((h.records x hx).allocated id hi)
        fun hm => h.others x hx id hi (BlockOf.variables_subset h₁ hm)
    labels x hx := by
      rw [hlabels x hx]
      exact h.labels x hx
    unique := by
      rw [List.flatMap_congr hlabels]
      exact h.unique
    apart x hx hm := h.apart x hx (List.map_subset _ h₂ hm)
    others x hx id hi hm := by
      rw [hf.locals _ (hthis x hx)] at hi
      exact h.others x hx id hi (BlockOf.variables_subset h₂ hm)
    empty := he }

theorem of_eq (h : path.Placed σ blocks) (hn : σ₁.names = σ.names) (hl : σ₁.labels = σ.labels) :
    path.Placed σ₁ blocks := by
  have hf : LinkState.Frames [] σ σ₁ := {
    length      := hn ▸ Nat.le_refl _
    kept id _ _ := by rw [hn]
    locals id _ := by rw [hn]
    labels id _ := by rw [hl] }
  exact h.frames hf (by simp) (List.Subset.refl _) fun body hb => hl ▸ h.empty body hb

end Path.Placed

end

variable {ctx : LinkCtx}

mutual

theorem visit_stmt_labels : (stmt : Statement) → {t : Traversal} → {σ σ' : LinkState} →
    visit_stmt ctx t stmt σ = .ok σ' → {id : StatementId} → id ∉ stmt.blocks.map BlockOf.this →
    σ'.labels id = σ.labels id
  | .block body, t, σ, σ', h, id, hi => by
    simp only [Statement.blocks] at hi
    simp only [visit_stmt] at h
    exact visit_block_stmt_labels body h hi
  | .memory this _, t, σ, σ', h, id, hi | .channel this _ _, t, σ, σ', h, id, hi => by
    simp only [visit_stmt] at h
    cases h
    simp
  | .labeled this label body, t, σ, σ', h, id, hi => by
    simp only [Statement.blocks] at hi
    simp only [visit_stmt] at h
    exact visit_stmt_labels body h hi
  | .if this test true_body false_body end_if, t, σ, σ', h, id, hi => by
    simp only [Statement.blocks, List.map_append, List.mem_append, not_or] at hi
    simp only [visit_stmt, Except.bind_eq_ok] at h
    obtain ⟨σ₁, h₁, σ₂, h₂, σ₃, h₃, h₄⟩ := h
    cases h₄
    obtain ⟨names, he⟩ := visit_expr_in_state_eq h₁
    subst he
    have htrue := visit_block_stmt_labels true_body h₂ hi.1
    have hfalse := visit_false_body_labels false_body h₃ hi.2
    simp only [LinkState.erase_labels] at htrue hfalse
    exact hfalse.trans htrue
  | .while this test body end_while, t, σ, σ', h, id, hi => by
    simp only [Statement.blocks] at hi
    simp only [visit_stmt, Except.bind_eq_ok] at h
    obtain ⟨σ₁, h₁, σ₂, h₂, h₃⟩ := h
    cases h₃
    obtain ⟨names, he⟩ := visit_expr_in_state_eq h₁
    subst he
    have hbody := visit_block_stmt_labels body h₂ hi
    simpa using hbody
  | .break this label, t, σ, σ', h, id, hi | .continue this label, t, σ, σ', h, id, hi => by
    simp only [visit_stmt, Except.bind_eq_ok] at h
    obtain ⟨target, _, h⟩ := h
    cases h
    simp [LinkState.set_target]
  | .synchronous this body end_sync, t, σ, σ', h, id, hi => by
    simp only [Statement.blocks] at hi
    simp only [visit_stmt] at h
    split at h; · cases h
    split at h; · cases h
    simp only [Except.bind_eq_ok] at h
    obtain ⟨σ₁, h₁, h₂⟩ := h
    cases h₂
    have hbody := visit_block_stmt_labels body h₁ hi
    simpa using hbody
  | .return this expression, t, σ, σ', h, id, hi => by
    simp only [visit_stmt] at h
    split at h; · cases h
    obtain ⟨names, he⟩ := visit_expr_in_state_eq h
    subst he
    simp
  | .goto this label, t, σ, σ', h, id, hi => by
    simp only [visit_stmt, Except.bind_eq_ok] at h
    obtain ⟨target, _, h⟩ := h
    split at h; · cases h
    cases h
    simp [LinkState.set_target]
  | .new this call method arguments definition, t, σ, σ', h, id, hi => by
    simp only [visit_stmt] at h
    split at h; · cases h
    simp only [Except.bind_eq_ok] at h
    obtain ⟨names, _, h⟩ := h
    cases h
    simp
  | .expression this expression, t, σ, σ', h, id, hi => by
    simp only [visit_stmt] at h
    obtain ⟨names, he⟩ := visit_expr_in_state_eq h
    subst he
    simp

theorem visit_block_stmt_labels : (body : BlockStatement) → {t : Traversal} → {σ σ' : LinkState} →
    visit_block_stmt ctx t body σ = .ok σ' → {id : StatementId} →
    id ∉ body.blocks.map BlockOf.this → σ'.labels id = σ.labels id
  | ⟨this, statements, end_block⟩, t, σ, σ', h, id, hi => by
    simp only [BlockOf.blocks_eq, List.map_cons, List.mem_cons, not_or] at hi
    simp only [visit_block_stmt, Except.bind_eq_ok] at h
    obtain ⟨σ₁, h₁, σ₂, h₂, h₃⟩ := h
    cases h₃
    have hscope : (t.enter ⟨this, statements, end_block⟩).cur_scope =
        ⟨this, t.relative_pos_in_block⟩ :: t.cur_scope := rfl
    have hd := visit_statements_declares hscope h₁
    have hs := visit_stmts_labels statements h₂ hi.2
    simp only [LinkState.replace_labels, hd.labels, Function.update_of_ne hi.1] at hs ⊢
    exact hs

theorem visit_stmts_labels : (stmts : List Statement) → {t : Traversal} → {pos : Nat} →
    {σ σ' : LinkState} → visit_stmts ctx t pos stmts σ = .ok σ' → {id : StatementId} →
    id ∉ (Statement.listBlocks stmts).map BlockOf.this → σ'.labels id = σ.labels id
  | [], t, pos, σ, σ', h, id, hi => by
    simp only [visit_stmts] at h
    cases h
    rfl
  | stmt :: stmts, t, pos, σ, σ', h, id, hi => by
    simp only [Statement.listBlocks_cons, List.map_append, List.mem_append, not_or] at hi
    simp only [visit_stmts, Except.bind_eq_ok] at h
    obtain ⟨σ₁, h₁, h₂⟩ := h
    exact (visit_stmts_labels stmts h₂ hi.2).trans (visit_stmt_labels stmt h₁ hi.1)

theorem visit_false_body_labels : (body : Option BlockStatement) → {t : Traversal} →
    {end_if : StatementId} → {σ σ' : LinkState} → visit_false_body ctx t end_if body σ = .ok σ' →
    {id : StatementId} → id ∉ (BlockOf.optionBlocks body).map BlockOf.this →
    σ'.labels id = σ.labels id
  | none, t, end_if, σ, σ', h, id, hi => by
    simp only [visit_false_body] at h
    cases h
    rfl
  | some body, t, end_if, σ, σ', h, id, hi => by
    simp only [BlockOf.optionBlocks] at hi
    simp only [visit_false_body, Except.bind_eq_ok] at h
    obtain ⟨σ₁, h₁, h₂⟩ := h
    cases h₂
    have hbody := visit_block_stmt_labels body h₁ hi
    simpa using hbody

end

theorem Statement.listBlocks_append (stmts stmts' : List Statement) :
    Statement.listBlocks (stmts ++ stmts') = Statement.listBlocks stmts ++ Statement.listBlocks stmts' := by
  induction stmts
  case nil => simp
  case cons stmt stmts ih => simp [ih]

theorem Statement.listDeclares_append (stmts stmts' : List Statement) (pos : Nat) :
    Statement.listDeclares pos (stmts ++ stmts') =
      Statement.listDeclares pos stmts ++
        Statement.listDeclares (pos + Statement.listWidth stmts) stmts' := by
  induction stmts generalizing pos
  case nil => simp [Statement.listDeclares, Statement.listWidth]
  case cons stmt stmts ih =>
    simp [Statement.listDeclares, Statement.listWidth, ih, Nat.add_assoc]

theorem Statement.listDeclares_le {stmts : List Statement} {pos : Nat} {x : VariableId × Nat}
    (h : x ∈ Statement.listDeclares pos stmts) : x.2 ≤ pos + Statement.listWidth stmts := by
  induction stmts generalizing pos
  case nil => cases h
  case cons stmt stmts ih =>
    simp only [Statement.listWidth, List.map_cons, List.sum_cons] at ih ⊢
    cases List.mem_append.mp h
    case inl h =>
      obtain ⟨_, _, he⟩ := List.mem_map.mp h
      subst he
      exact Nat.le_add_right ..
    case inr h =>
      have := ih h
      omega

section

variable {path : Path} {σ σ₁ σ₂ : LinkState} {t : Traversal} {body : BlockStatement}
variable {bound : List VariableId} {before after : List Statement} {stmt : Statement}

theorem Path.mem_scopes {path : Path} {x : BlockStatement × Nat} (h : x ∈ path) :
    ∃ scope ∈ path.scopes, scope.block = x.1.this := by
  induction path
  case nil => cases h
  case cons y path ih =>
    cases List.mem_cons.mp h
    case inl h => exact ⟨_, List.mem_cons_self .., h ▸ rfl⟩
    case inr h =>
      obtain ⟨scope, hs, he⟩ := ih h
      exact ⟨scope, List.mem_cons_of_mem _ hs, he⟩

theorem Path.covered (path : Path) (σ : LinkState) :
    Covered σ path.scopes ((path.flatMap fun x => σ.labels x.1.this).map (·.label)) := by
  intro name hn
  obtain ⟨label, hl, he⟩ := List.mem_map.mp hn
  obtain ⟨x, hx, hl⟩ := List.mem_flatMap.mp hl
  obtain ⟨scope, hs, hb⟩ := path.mem_scopes hx
  exact ⟨scope, hs, label, hb ▸ hl, he⟩

theorem Traversal.enter_scopes (hs : t.cur_scope = path.scopes)
    (hp : t.relative_pos_in_block = path.pos) (pos : Nat) :
    (t.enter body).cur_scope = Path.scopes ((body, pos) :: path) := by
  simp only [Traversal.enter, Path.scopes, hs, hp]

theorem Declares.frames (body : BlockStatement) {declared : List (VariableId × Nat)}
    {labels : List LabeledStatement} (h : Declares body.this σ σ₁ declared labels)
    (hd : declared.map Prod.fst ⊆ body.declares.map Prod.fst) : LinkState.Frames [body] σ σ₁ where
  length := by
    apply Nat.le_of_eq
    rw [h.names, Names.declare_length]
  kept id _ hi := by
    have hi : id ∉ declared.map Prod.fst := fun hm => hi (by simpa using hd hm)
    rw [h.names, Names.get_declare_of_not_mem hi]
  locals id hi := by
    have hne : id ≠ body.this := fun he => hi (by simp [he])
    rw [h.names, Names.declare_locals, Function.update_of_ne hne]
  labels id hi := by
    have hne : id ≠ body.this := fun he => hi (by simp [he])
    rw [h.labels, Function.update_of_ne hne]

-- After the breadth-first pass the block is one of those around what comes next.
theorem Path.Placed.scanned (h : path.Placed σ body.blocks) (ho : σ.names.Opens bound body)
    (ht : t.cur_scope = path.scopes)
    (hs : visit_statements_for_locals_labels_and_in_sync ctx (t.enter body) 0 body.statements σ =
      .ok σ₁) (pos : Nat) :
    Path.Placed ((body, pos) :: path) σ₁ (Statement.listBlocks body.statements) ∧
      σ₁.names.Fresh (Statement.listBlocks body.statements) := by
  have hscope : (t.enter body).cur_scope = ⟨body.this, t.relative_pos_in_block⟩ :: path.scopes := by
    simp only [Traversal.enter, ht]
  have hd := visit_statements_declares hscope hs
  have hnames : σ₁.names = σ.names.declare body.this body.declares := hd.names
  have hunique := (Scanned.visit_statements hscope (path.covered σ) hs).unique
  have hbody : body ∈ body.blocks := by simp
  have hnested : Statement.listBlocks body.statements ⊆ body.blocks := by simp
  have hdistinct := ho.distinct
  rw [BlockOf.blocks_eq, List.map_cons, List.nodup_cons] at hdistinct
  have hempty : ∀ nested ∈ Statement.listBlocks body.statements, σ₁.labels nested.this = [] := by
    intro nested hn
    have hne : nested.this ≠ body.this := fun he => hdistinct.1 (he ▸ List.mem_map_of_mem hn)
    rw [hd.labels, Function.update_of_ne hne, h.empty nested (hnested hn)]
  have hframes := Declares.frames body hd (List.Subset.refl _)
  have hpath := h.frames hframes (by simp) hnested hempty
  have hrecords := ho.records
  have hlabels : σ₁.labels body.this = body.labelsAt t.in_sync := by
    rw [hd.labels, Function.update_self, h.empty body hbody]
    rfl
  refine ⟨?_, hnames ▸ ho.fresh⟩
  exact {
    records x hx := by
      cases List.mem_cons.mp hx
      case inl he => exact he ▸ hnames ▸ hrecords
      case inr hx => exact hpath.records x hx
    labels x hx := by
      cases List.mem_cons.mp hx
      case inl he => exact ⟨t.in_sync, he ▸ hlabels⟩
      case inr hx => exact hpath.labels x hx
    unique := by
      rw [List.flatMap_cons, List.map_append]
      have hsame : (path.flatMap fun x => σ₁.labels x.1.this) = path.flatMap fun x => σ.labels x.1.this :=
        List.flatMap_congr fun x hx => hframes.labels _ fun hm => h.apart x hx
          (List.map_subset _ (by simp) hm)
      rw [hsame]
      apply hunique
      rw [h.empty body hbody]
      exact h.unique
    apart x hx := by
      cases List.mem_cons.mp hx
      case inl he => exact he ▸ hdistinct.1
      case inr hx => exact hpath.apart x hx
    others x hx id hi hm := by
      cases List.mem_cons.mp hx
      case inr hx => exact hpath.others x hx id hi hm
      case inl he =>
        subst he
        have hn := ho.declared
        rw [BlockOf.blocks_eq, BlockOf.variables_cons, List.nodup_append'] at hn
        rw [hnames, Names.declare_locals, Function.update_self, ho.locals] at hi
        cases List.mem_append.mp hi
        case inl hi => exact (ho.bound id hi).1 (BlockOf.variables_subset hnested hm)
        case inr hi => exact hn.2.2 hi hm
    empty := hempty }

-- The depth-first pass has come to a statement of the block.
theorem Path.Placed.visited (h : path.Placed σ (Statement.listBlocks (before ++ stmt :: after)))
    (hf : σ.names.Fresh (Statement.listBlocks (before ++ stmt :: after)))
    (ht : t.in_test_expr = none) {pos : Nat} (hv : visit_stmts ctx t pos before σ = .ok σ₁) :
    path.Placed σ₁ stmt.blocks ∧ σ₁.names.Fresh stmt.blocks := by
  rw [Statement.listBlocks_append, Statement.listBlocks_cons] at h hf
  have hg := visit_stmts_grows before ht hf.left hv
  have hfresh := hf.grows hg
  refine ⟨?_, hfresh.left⟩
  have hframes := hg.frames fun id hi => visit_stmts_labels before hv hi
  apply h.frames hframes (by simp) (by simp)
  intro nested hn
  have hd := hf.distinct
  rw [List.map_append, List.nodup_append'] at hd
  have hn' : nested ∈ stmt.blocks ++ Statement.listBlocks after := List.mem_append_left _ hn
  rw [hframes.labels _ fun hm => hd.2.2 hm (List.mem_map_of_mem hn')]
  exact h.empty nested (List.mem_append_right _ hn')

-- The breadth-first pass has come to a statement of the block.
theorem Path.Placed.scanning (h : path.Placed σ body.blocks) (ho : σ.names.Opens bound body)
    (he : body.statements = before ++ stmt :: after) (ht : t.cur_scope = path.scopes)
    (hs : visit_statements_for_locals_labels_and_in_sync ctx (t.enter body) 0 before σ = .ok σ₁) :
    Path.Scanning ((body, Statement.listWidth before) :: path) σ₁.names stmt.declares := by
  have hscope : (t.enter body).cur_scope = ⟨body.this, t.relative_pos_in_block⟩ :: path.scopes := by
    simp only [Traversal.enter, ht]
  have hd := visit_statements_declares hscope hs
  have hdeclares : body.declares.map Prod.fst =
      (Statement.listDeclares 0 before).map Prod.fst ++ (stmt.declares ++
        (Statement.listDeclares (Statement.listWidth before + stmt.width) after).map Prod.fst) := by
    rw [BlockOf.declares, he, Statement.listDeclares_append, List.map_append, Nat.zero_add]
    simp [Statement.listDeclares, Function.comp_def]
  have hn := ho.declared
  rw [BlockOf.blocks_eq, BlockOf.variables_cons, List.nodup_append', hdeclares,
    List.nodup_append', List.nodup_append'] at hn
  obtain ⟨⟨hbefore, ⟨hstmt, _, _⟩, hdisjoint⟩, _, _⟩ := hn
  have hvar : ∀ id ∈ stmt.declares, id ∈ BlockOf.variables body.blocks := by
    intro id hi
    rw [BlockOf.blocks_eq, BlockOf.variables_cons, hdeclares]
    simp [hi]
  have hprefix : (Statement.listDeclares 0 before).map Prod.fst ⊆ body.declares.map Prod.fst := by
    rw [hdeclares]
    exact List.subset_append_left ..
  have hframes := Declares.frames body hd hprefix
  have hlocals : σ₁.names.locals body.this =
      bound ++ (Statement.listDeclares 0 before).map Prod.fst := by
    rw [hd.names, Names.declare_locals]
    simp [ho.locals]
  exact {
    inside := List.cons_ne_nil _ _
    nodup := hstmt
    apart id hi x hx hm := by
      cases List.mem_cons.mp hx
      case inl hx =>
        subst hx
        rw [hlocals] at hm
        cases List.mem_append.mp hm
        case inl hm => exact (ho.bound id hm).1 (hvar id hi)
        case inr hm => exact hdisjoint hm (List.mem_append_left _ hi)
      case inr hx =>
        rw [hframes.locals _ fun hm => h.apart x hx (by simpa using .inl (by simpa using hm))] at hm
        exact h.others x hx id hm (hvar id hi)
    before x hx id hi := by
      cases hx
      rw [hlocals] at hi
      have hget : ∀ id ∈ bound, σ₁.names.get id = σ.names.get id := by
        intro id hi
        rw [hd.names]
        exact Names.get_declare_of_not_mem fun hm => (ho.bound id hi).1 (by
          rw [BlockOf.blocks_eq, BlockOf.variables_cons]
          exact List.mem_append_left _ ( hprefix hm))
      cases List.mem_append.mp hi
      case inl hi =>
        rw [hget id hi, (ho.bound id hi).2.2]
        exact Nat.zero_le _
      case inr hi =>
        obtain ⟨⟨id', pos⟩, hx, he⟩ := List.mem_map.mp hi
        subst he
        have hl : id' < σ.names.arena.length := ho.allocated id' (by
          rw [BlockOf.blocks_eq, BlockOf.variables_cons]
          exact List.mem_append_left _ ( hprefix hi))
        rw [hd.names, Names.pos_declare hbefore hl hx]
        have := Statement.listDeclares_le hx
        rwa [Nat.zero_add] at this }

end

theorem Names.pos_add_local_le (names : Names) (block : StatementId) (pos : Nat) (id : VariableId) :
    ((names.add_local block pos id).get id).relative_pos_in_block ≤ pos := by
  by_cases hl : id < names.arena.length
  case pos =>
    apply Nat.le_of_eq
    rw [Names.get_add_local_self hl]
  case neg =>
    have hl' : (names.add_local block pos id).arena.length ≤ id := by
      rw [Names.add_local_length]
      exact Nat.le_of_not_lt hl
    rw [Names.get, List.getD_eq_getElem?_getD, List.getElem?_eq_none hl']
    exact Nat.zero_le _

theorem Path.Scanning.add {path : Path} {σ σ' : LinkState} {t : Traversal} {id : VariableId}
    {ids : List VariableId} (h : path.Scanning σ.names (id :: ids)) (ht : t.cur_scope = path.scopes)
    (ha : add_local_to_state ctx t path.pos id σ = .ok σ') : path.Scanning σ'.names ids := by
  match path with
  | [] =>
    simp only [add_local_to_state, checked_add_local, ht, Path.scopes] at ha
    cases ha
  | (body, pos) :: path =>
    have hd := add_local_to_state_declares ht ha
    have hnames : σ'.names = σ.names.add_local body.this pos id := hd.names
    obtain ⟨hid, hn⟩ := List.nodup_cons.mp h.nodup
    have hlocals : ∀ block id', id' ∈ σ'.names.locals block → id' ∈ σ.names.locals block ∨ id' = id := by
      intro block id' hi
      rw [hnames, Names.add_local_locals] at hi
      by_cases hb : block = body.this
      case neg => exact .inl (by rwa [Function.update_of_ne hb] at hi)
      case pos =>
        subst hb
        rw [Function.update_self, List.mem_append, List.mem_singleton] at hi
        exact hi
    exact {
      inside := List.cons_ne_nil _ _
      nodup := hn
      apart id' hi x hx hm := by
        cases hlocals _ _ hm
        case inl hm => exact h.apart id' (List.mem_cons_of_mem _ hi) x hx hm
        case inr he => exact hid (he ▸ hi)
      before x hx id' hi := by
        cases hx
        by_cases he : id' = id
        case pos =>
          rw [he, hnames]
          exact σ.names.pos_add_local_le ..
        case neg =>
          rw [hnames, Names.get_add_local_of_ne (Ne.symm he)]
          exact h.before _ rfl id' ((hlocals _ _ hi).resolve_right he) }

theorem checked_add_label_names {t : Traversal} {pos : Nat} {this : StatementId} {label : Identifier}
    {body : Statement} {σ σ' : LinkState} (h : checked_add_label t pos this label body σ = .ok σ') :
    σ'.names = σ.names := by
  simp only [checked_add_label] at h
  split at h
  · cases h
  · split at h
    · cases h
    · cases h
      rfl

-- The body of an if or while statement, after the test in front of it.
theorem Path.Placed.tested {path : Path} {σ σ' : LinkState} {body : BlockStatement}
    {blocks : List BlockStatement} {identifiers : List Identifier} (h : path.Placed σ blocks)
    (hf : σ.names.Fresh body.blocks) (hs : body.blocks ⊆ blocks)
    (hb : Names.Binds (some body.this) σ.names σ'.names identifiers) (hl : σ'.labels = σ.labels) :
    path.Placed σ' body.blocks ∧ ∃ bound, σ'.names.Opens bound body := by
  refine ⟨h.frames (hb.frames hl) ?_ hs ?_, _, .of_binds hf hb⟩
  · simpa using hs (by simp)
  · intro nested hn
    rw [hl]
    exact h.empty nested (hs hn)

theorem Traversal.descend_same (t : Traversal) (expr : Expression) (idx : Nat) :
    (t.descend expr idx).definition = t.definition ∧ (t.descend expr idx).cur_scope = t.cur_scope ∧
      (t.descend expr idx).relative_pos_in_block = t.relative_pos_in_block := by
  cases expr
  case indexing =>
    simp only [Traversal.descend]
    split <;> exact ⟨rfl, rfl, rfl⟩
  all_goals exact ⟨rfl, rfl, rfl⟩

namespace Visit

variable {v v' : Visit} {definition : Definition}

-- What holds where the pass is holds wherever it goes from there.
theorem Calls.invariant (h : Calls ctx v v') (hi : v.Invariant definition) :
    v'.Invariant definition := by
  obtain ⟨hd, hsc, hs⟩ := hi
  cases h
  case scanned he hv =>
    obtain ⟨hpos, ht, hp, bound, ho⟩ := hs
    exact ⟨hd, Traversal.enter_scopes hsc hpos _, hp.scanning ho he hsc hv⟩
  case memory => exact ⟨hd, hsc, hs⟩
  case channel_from =>
    obtain ⟨hne, hn, ha, hb⟩ := hs
    refine ⟨hd, hsc, hne, List.nodup_singleton _, fun id hi => ha id ?_, hb⟩
    simp only [List.mem_singleton] at hi
    simp [Statement.declares, hi]
  case channel_to ha =>
    have hs := Path.Scanning.add hs hsc ha
    exact ⟨hd, hsc, hs⟩
  case scanned_labeled ha =>
    have hn := checked_add_label_names ha
    refine ⟨hd, hsc, ?_⟩
    simp only [Situated, Statement.declares] at hs ⊢
    rw [hn]
    exact hs
  case stmt path t σ σ₁ σ₂ body before stmt after he h₁ h₂ =>
    obtain ⟨hpos, ht, hp, bound, ho⟩ := hs
    obtain ⟨hplaced, hfresh⟩ := hp.scanned ho hsc h₁ (Statement.listWidth before)
    have hplaced₁ : Path.Placed ((body, Statement.listWidth before) :: path)
        (σ₁.assign_and_replace_next_stmt body.this) (Statement.listBlocks body.statements) :=
      hplaced.of_eq (by simp) (by simp)
    rw [he] at hplaced₁ hfresh
    obtain ⟨hplaced₂, hfresh₂⟩ := hplaced₁.visited (t := t.enter body) (by simpa using hfresh) ht h₂
    exact ⟨hd, Traversal.enter_scopes hsc hpos _, rfl, ht, hplaced₂, hfresh₂⟩
  case block =>
    obtain ⟨hpos, ht, hp, hf⟩ := hs
    simp only [Statement.blocks] at hp hf
    exact ⟨hd, hsc, hpos, ht, hp, [], .of_fresh hf⟩
  case labeled =>
    obtain ⟨hpos, ht, hp, hf⟩ := hs
    simp only [Statement.blocks] at hp hf
    exact ⟨hd, hsc, hpos, ht, hp, hf⟩
  case if_test path t σ this test true_body false_body end_if =>
    obtain ⟨hpos, ht, hp, hf⟩ := hs
    simp only [Statement.blocks] at hf
    refine ⟨hd, hsc, hpos, fun block hb id hi => ?_⟩
    cases hb
    rw [hf.empty true_body (by simp)] at hi
    cases hi
  case while_test path t σ this test body end_while =>
    obtain ⟨hpos, ht, hp, hf⟩ := hs
    simp only [Statement.blocks] at hf
    refine ⟨hd, hsc, hpos, fun block hb id hi => ?_⟩
    cases hb
    rw [hf.empty body (by simp)] at hi
    cases hi
  case «return» | new | expression =>
    obtain ⟨hpos, ht, _⟩ := hs
    exact ⟨hd, hsc, hpos, fun block hb => nomatch ht.symm.trans hb⟩
  case true_body hv =>
    obtain ⟨hpos, ht, hp, hf⟩ := hs
    simp only [Statement.blocks] at hp hf
    obtain ⟨_, hb⟩ := visit_expr_in_state_binds hv
    obtain ⟨names, he⟩ := visit_expr_in_state_eq hv
    obtain ⟨hp, ho⟩ := hp.tested hf.left (by simp) hb (he ▸ rfl)
    exact ⟨hd, hsc, hpos, ht, hp.of_eq (by simp) (by simp), by simpa using ho⟩
  case false_body path t σ σ₁ σ₂ this test true_body body end_if h₁ h₂ =>
    obtain ⟨hpos, ht, hp, hf⟩ := hs
    simp only [Statement.blocks, BlockOf.optionBlocks] at hp hf
    obtain ⟨_, hb⟩ := visit_expr_in_state_binds h₁
    obtain ⟨names, he⟩ := visit_expr_in_state_eq h₁
    have hbody := visit_block_stmt_grows true_body ht
      (by simpa using Names.Opens.of_binds hf.left hb) h₂
    simp only [LinkState.erase_names] at hbody
    have hframes : LinkState.Frames true_body.blocks σ σ₂ := by
      apply (Names.Grows.of_binds hb hbody).frames
      intro id hi
      rw [visit_block_stmt_labels true_body h₂ hi, LinkState.erase_labels, he]
    have hfresh := hf.grows (Names.Grows.of_binds hb hbody)
    have hdistinct := hf.distinct
    rw [List.map_append, List.nodup_append'] at hdistinct
    have hplaced : path.Placed σ₂ body.blocks := by
      apply hp.frames hframes (by simp) (by simp)
      intro nested hn
      rw [hframes.labels _ fun hm => hdistinct.2.2 hm (List.mem_map_of_mem hn)]
      exact hp.empty nested (List.mem_append_right _ hn)
    exact ⟨hd, hsc, hpos, ht, hplaced.of_eq (by simp) (by simp), [], by simpa using .of_fresh hfresh⟩
  case while_body hv =>
    obtain ⟨hpos, ht, hp, hf⟩ := hs
    simp only [Statement.blocks] at hp hf
    obtain ⟨_, hb⟩ := visit_expr_in_state_binds hv
    obtain ⟨names, he⟩ := visit_expr_in_state_eq hv
    obtain ⟨hp, ho⟩ := hp.tested hf (by simp) hb (he ▸ rfl)
    exact ⟨hd, hsc, hpos, ht, hp.of_eq (by simp) (by simp), by simpa using ho⟩
  case synchronous =>
    obtain ⟨hpos, ht, hp, hf⟩ := hs
    simp only [Statement.blocks] at hp hf
    exact ⟨hd, hsc, hpos, ht, hp.of_eq (by simp) (by simp), [], by simpa using .of_fresh hf⟩
  case child path t σ expr before child after names names' hc hp hv =>
    obtain ⟨hd', hsc', hpos'⟩ := t.descend_same expr before.length
    obtain ⟨hpos, hl⟩ := hs
    obtain ⟨ha, he⟩ := hp.binds
    obtain ⟨identifiers, hb⟩ := visit_children_binds (fun child _ _ _ _ h => visit_expr_binds child h) hv
    refine ⟨hd'.trans hd, hsc'.trans hsc, hpos'.trans hpos, fun block ht id hi => ?_⟩
    simp only [Traversal.descend_in_test_expr] at ht
    simp only [hb.locals, ht, if_true, hb.arena, ha, he, List.length_append, List.length_map] at hi ⊢
    cases List.mem_append.mp hi
    case inl hi => exact Nat.lt_add_right _ (hl block ht id hi)
    case inr hi => exact (List.mem_range'_1.mp hi).2

end Visit

theorem assign_parameter_ids_same (ids : List VariableId) (var_counter : Nat) (heap : Heap) :
    (assign_parameter_ids ids var_counter heap).names.locals = heap.names.locals ∧
      (assign_parameter_ids ids var_counter heap).names.arena.length = heap.names.arena.length ∧
      (assign_parameter_ids ids var_counter heap).labels = heap.labels := by
  induction ids generalizing var_counter heap
  case nil => exact ⟨rfl, rfl, rfl⟩
  case cons id ids ih =>
    obtain ⟨hl, hn, hb⟩ := ih (var_counter + 1) (heap.set_unique_id id var_counter)
    exact ⟨hl, hn.trans (List.length_modify ..), hb⟩

namespace ParsedProcedure

variable {p : ParsedProcedure} {v : Visit}

theorem start_invariant (p : ParsedProcedure) : p.start.Invariant p.definition := by
  obtain ⟨hlocals, hlength, hlabels⟩ := assign_parameter_ids_same p.definition.parameters 0 p.heap
  have hfresh : p.start.σ.names.Fresh p.definition.body.blocks := p.fresh.of_eq hlength hlocals
  refine ⟨rfl, rfl, rfl, rfl, ?_, [], .of_fresh hfresh⟩
  exact {
    records x hx  := by cases hx
    labels x hx   := by cases hx
    unique        := List.nodup_nil
    apart x hx    := by cases hx
    others x hx   := by cases hx
    empty body hb := by
      have h := p.labels body hb
      rwa [← hlabels] at h }

-- The invariant holds in every visit of a run of the pass.
theorem Reaches.invariant (h : p.Reaches v) : v.Invariant p.definition := by
  induction h
  case refl => exact p.start_invariant
  case tail _ hc ih => exact hc.invariant ih

end ParsedProcedure

end Reowolf
