import Reowolf.Protocol.Linked

namespace Reowolf

namespace LinkState

variable {σ : LinkState} {stmt id p : StatementId}

@[simp]
theorem erase_prev : (σ.assign_then_erase_next_stmt stmt).prev_stmt = none := by
  simp only [assign_then_erase_next_stmt]
  split <;> simp_all

@[simp]
theorem replace_prev : (σ.assign_and_replace_next_stmt stmt).prev_stmt = some stmt := by
  simp only [assign_and_replace_next_stmt]
  split <;> rfl

theorem erase_next (h : σ.prev_stmt = some p) :
    (σ.assign_then_erase_next_stmt stmt).next p = some stmt := by
  simp [assign_then_erase_next_stmt, h, link_next]

theorem replace_next (h : σ.prev_stmt = some p) :
    (σ.assign_and_replace_next_stmt stmt).next p = some stmt := by
  simp [assign_and_replace_next_stmt, h, link_next]

theorem erase_next_ne (h : σ.prev_stmt ≠ some id) :
    (σ.assign_then_erase_next_stmt stmt).next id = σ.next id := by
  simp only [assign_then_erase_next_stmt]
  split
  case h_1 => rfl
  case h_2 p hp => exact Function.update_of_ne (fun he => h (by rw [he, hp])) _ _

theorem replace_next_ne (h : σ.prev_stmt ≠ some id) :
    (σ.assign_and_replace_next_stmt stmt).next id = σ.next id := by
  simp only [assign_and_replace_next_stmt]
  split
  case h_1 => rfl
  case h_2 p hp => exact Function.update_of_ne (fun he => h (by rw [he, hp])) _ _

-- The two macros write nothing but `next`.
@[simp]
theorem erase_target : (σ.assign_then_erase_next_stmt stmt).target = σ.target := by
  simp only [assign_then_erase_next_stmt]
  split <;> rfl

@[simp]
theorem replace_target : (σ.assign_and_replace_next_stmt stmt).target = σ.target := by
  simp only [assign_and_replace_next_stmt]
  split <;> rfl

@[simp]
theorem erase_labels : (σ.assign_then_erase_next_stmt stmt).labels = σ.labels := by
  simp only [assign_then_erase_next_stmt]
  split <;> rfl

@[simp]
theorem replace_labels : (σ.assign_and_replace_next_stmt stmt).labels = σ.labels := by
  simp only [assign_and_replace_next_stmt]
  split <;> rfl

@[simp]
theorem erase_while_in_sync :
    (σ.assign_then_erase_next_stmt stmt).while_in_sync = σ.while_in_sync := by
  simp only [assign_then_erase_next_stmt]
  split <;> rfl

@[simp]
theorem replace_while_in_sync :
    (σ.assign_and_replace_next_stmt stmt).while_in_sync = σ.while_in_sync := by
  simp only [assign_and_replace_next_stmt]
  split <;> rfl

@[simp]
theorem erase_names : (σ.assign_then_erase_next_stmt stmt).names = σ.names := by
  simp only [assign_then_erase_next_stmt]
  split <;> rfl

@[simp]
theorem replace_names : (σ.assign_and_replace_next_stmt stmt).names = σ.names := by
  simp only [assign_and_replace_next_stmt]
  split <;> rfl

end LinkState

def Statement.ids (stmt : Statement) : List StatementId := stmt.nodes.ids

def BlockOf.ids (body : BlockStatement) : List StatementId := (BlockOf.nodes body).ids

def Statement.listIds (stmts : List Statement) : List StatementId := (listNodes stmts).ids

def BlockOf.optionIds (body : Option BlockStatement) : List StatementId := (optionNodes body).ids

@[simp]
theorem BlockOf.ids_mk (this end_block : StatementId) (statements : List Statement) :
    BlockOf.ids ⟨this, statements, end_block⟩ =
      this :: Statement.listIds statements ++ [end_block] :=
  congrArg (this :: ·) List.map_append

@[simp]
theorem Statement.listIds_nil : listIds [] = [] :=
  rfl

@[simp]
theorem Statement.listIds_cons (stmt : Statement) (stmts : List Statement) :
    listIds (stmt :: stmts) = stmt.ids ++ listIds stmts :=
  List.map_append

@[simp]
theorem BlockOf.optionIds_none : BlockOf.optionIds none = [] :=
  rfl

@[simp]
theorem BlockOf.optionIds_some (body : BlockStatement) : BlockOf.optionIds (some body) = body.ids :=
  rfl

@[simp]
theorem Statement.ids_block (body : BlockStatement) : (block body).ids = body.ids :=
  rfl

@[simp]
theorem Statement.ids_labeled (this : StatementId) (label : Identifier) (body : Statement) :
    (labeled this label body).ids = this :: body.ids :=
  rfl

@[simp]
theorem Statement.ids_if (this test true_body false_body end_if) :
    (Statement.if this test true_body false_body end_if).ids =
      this :: (true_body.ids ++ BlockOf.optionIds false_body ++ [end_if]) := by
  have hbodies : (BlockOf.nodes true_body ++ BlockOf.optionNodes false_body).map Prod.fst =
      true_body.ids ++ BlockOf.optionIds false_body := List.map_append
  rw [← hbodies]
  exact congrArg (this :: ·) List.map_append

@[simp]
theorem Statement.ids_while (this test body end_while) :
    (Statement.while this test body end_while).ids = this :: (body.ids ++ [end_while]) :=
  congrArg (this :: ·) List.map_append

@[simp]
theorem Statement.ids_synchronous (this body end_sync) :
    (synchronous this body end_sync).ids = this :: (body.ids ++ [end_sync]) :=
  congrArg (this :: ·) List.map_append

-- The first statement to be executed: labels are passed by.
def Statement.entry : Statement → StatementId
  | .labeled _ _ body => body.entry
  | stmt              => stmt.this

theorem Statement.visit_enter (stack : ControlStack) : (stmt : Statement) →
    (label : Option Identifier) → Control.visit (.enter label stmt, stack) = stmt.entry
  | .labeled _ label body, _ => Statement.visit_enter stack body (some label)
  | .block _, _ | .memory .., _ | .channel .., _ | .if .., _ | .while .., _ | .break .., _
  | .continue .., _ | .synchronous .., _ | .return .., _ | .goto .., _ | .new .., _
  | .expression .., _ => rfl

-- What a visit of a part of the tree leaves alone, and where it leaves off.
structure Visited (σ σ' : LinkState) (ids : List StatementId) : Prop where
  next    : ∀ id ∉ ids, σ.prev_stmt ≠ some id → σ'.next id = σ.next id
  target  : ∀ id ∉ ids, σ'.target id = σ.target id
  labels  : ∀ id ∉ ids, σ'.labels id = σ.labels id
  in_sync : ∀ id ∉ ids, σ'.while_in_sync id = σ.while_in_sync id
  prev    : ∀ id, σ'.prev_stmt = some id → id ∈ ids ∨ σ.prev_stmt = some id

-- A heap has the links that the visit of a part of the tree has made, but for the last one.
def Settled (heap : Heap) (σ : LinkState) (ids : List StatementId) : Prop :=
  ∀ id ∈ ids, heap.target id = σ.target id ∧
    (σ.prev_stmt ≠ some id → heap.next id = σ.next id)

-- The statement that was visited before is linked to the given one.
def LinksTo (σ σ' : LinkState) (ids : List StatementId) (entry : StatementId) : Prop :=
  ∀ id, σ.prev_stmt = some id → id ∉ ids → σ'.next id = some entry

namespace Visited

variable {σ σ₁ σ₂ : LinkState} {ids ids₁ ids₂ : List StatementId}

theorem refl (σ : LinkState) : Visited σ σ [] where
  next _ _ _   := rfl
  target _ _   := rfl
  labels _ _   := rfl
  in_sync _ _  := rfl
  prev _ h     := .inr h

theorem trans (h₁ : Visited σ σ₁ ids₁) (h₂ : Visited σ₁ σ₂ ids₂) : Visited σ σ₂ (ids₁ ++ ids₂) where
  next id hi hp := by
    simp only [List.mem_append, not_or] at hi
    have hp₁ : σ₁.prev_stmt ≠ some id := fun h => (h₁.prev id h).elim hi.1 hp
    rw [h₂.next id hi.2 hp₁, h₁.next id hi.1 hp]
  target id hi := by
    simp only [List.mem_append, not_or] at hi
    rw [h₂.target id hi.2, h₁.target id hi.1]
  labels id hi := by
    simp only [List.mem_append, not_or] at hi
    rw [h₂.labels id hi.2, h₁.labels id hi.1]
  in_sync id hi := by
    simp only [List.mem_append, not_or] at hi
    rw [h₂.in_sync id hi.2, h₁.in_sync id hi.1]
  prev id h := by
    cases h₂.prev id h
    case inl h => exact .inl (List.mem_append_right _ h)
    case inr h => exact (h₁.prev id h).imp_left (List.mem_append_left _)

theorem mono (h : Visited σ σ₁ ids₁) (hs : ids₁ ⊆ ids) : Visited σ σ₁ ids where
  next id hi    := h.next id (fun hm => hi (hs hm))
  target id hi  := h.target id (fun hm => hi (hs hm))
  labels id hi  := h.labels id (fun hm => hi (hs hm))
  in_sync id hi := h.in_sync id (fun hm => hi (hs hm))
  prev id hp    := (h.prev id hp).imp_left (@hs id)

theorem erase (σ : LinkState) (stmt : StatementId) :
    Visited σ (σ.assign_then_erase_next_stmt stmt) [] where
  next _ _ hp  := LinkState.erase_next_ne hp
  target _ _   := by simp
  labels _ _   := by simp
  in_sync _ _  := by simp
  prev _ h     := by simp at h

theorem replace (σ : LinkState) (stmt : StatementId) :
    Visited σ (σ.assign_and_replace_next_stmt stmt) [stmt] where
  next _ _ hp  := LinkState.replace_next_ne hp
  target _ _   := by simp
  labels _ _   := by simp
  in_sync _ _  := by simp
  prev _ h     := by simp_all

theorem set_target (σ : LinkState) (stmt target : StatementId) :
    Visited σ (σ.set_target stmt target) [stmt] where
  next _ _ _   := rfl
  target id h  := Function.update_of_ne (by simpa using h) _ _
  labels _ _   := rfl
  in_sync _ _  := rfl
  prev _ h     := .inr h

theorem set_prev (σ : LinkState) (stmt : StatementId) :
    Visited σ { σ with prev_stmt := some stmt } [stmt] where
  next _ _ _   := rfl
  target _ _   := rfl
  labels _ _   := rfl
  in_sync _ _  := rfl
  prev _ h     := .inl (by simp_all)

theorem names (σ : LinkState) (names : Names) : Visited σ { σ with names } [] where
  next _ _ _   := rfl
  target _ _   := rfl
  labels _ _   := rfl
  in_sync _ _  := rfl
  prev _ h     := .inr h

-- What was settled after a first visit is still so after another one.
theorem settled {heap : Heap} (h : Visited σ₁ σ₂ ids₂) (hs : Settled heap σ₂ ids)
    (hsub : ids₁ ⊆ ids) (hd : ids₁.Disjoint ids₂) : Settled heap σ₁ ids₁ := by
  intro id hi
  obtain ⟨ht, hn⟩ := hs id (hsub hi)
  have hi₂ : id ∉ ids₂ := hd hi
  constructor
  · rw [ht, h.target id hi₂]
  · intro hp
    have hp₂ : σ₂.prev_stmt ≠ some id := fun he => (h.prev id he).elim hi₂ hp
    rw [hn hp₂, h.next id hi₂ hp]

end Visited

-- A label as it is recorded for the block that it is in.
def LabeledStatement.entry (label : LabeledStatement) : StatementId × Identifier × Statement :=
  (label.this, label.label, label.body)

def Statement.listEntries (stmts : List Statement) : List (StatementId × Identifier × Statement) :=
  (Statement.listLabels stmts).map Prod.fst

@[simp]
theorem Statement.listEntries_cons (stmt : Statement) (stmts : List Statement) :
    listEntries (stmt :: stmts) = stmt.labels ++ listEntries stmts := by
  simp [listEntries, listLabels, Function.comp_def]

def LabeledStatement.record (label : LabeledStatement) :
    (StatementId × Identifier × Statement) × Option StatementId :=
  (label.entry, label.in_sync)

namespace ControlStack

-- The blocks that we are in.
def blocks : ControlStack → List StatementId
  | []                       => []
  | .block body _ :: stack   => body.this :: blocks stack
  | _ :: stack               => blocks stack

-- The statements of the frames for which the traversal records something.
def ids : ControlStack → List StatementId
  | []                         => []
  | .block body _ :: stack     => body.this :: ids stack
  | .loop _ this _ _ _ :: stack => this :: ids stack
  | _ :: stack                 => ids stack

-- The labels of the blocks that we are in.
def entries : ControlStack → List (StatementId × Identifier × Statement)
  | []                     => []
  | .block body _ :: stack => Statement.listEntries body.statements ++ entries stack
  | _ :: stack             => entries stack

-- The innermost loop.
def in_while : ControlStack → Option WhileStatement
  | []                                    => none
  | .loop _ this _ body end_while :: _    => some ⟨this, body.this, end_while⟩
  | _ :: stack                            => in_while stack

-- The loop that a block on top of the stack is the body of.
def owner : ControlStack → Option (Option Identifier × StatementId)
  | .loop label this _ _ _ :: _ => some (label, this)
  | _                           => none

-- What the traversal has recorded for the frames of the stack.
def Recorded (σ : LinkState) : ControlStack → Prop
  | [] => True
  | .block body _ :: stack =>
    (σ.labels body.this).map LabeledStatement.record =
      (Statement.listEntries body.statements).map (·, in_sync stack) ∧ Recorded σ stack
  | .loop _ this _ _ _ :: stack => σ.while_in_sync this = in_sync stack ∧ Recorded σ stack
  | _ :: stack => Recorded σ stack

-- How blocks, loops and labels belong together, where `owners` has for every block of the body the
-- loop that it is the body of.
def Owned (owners : List (StatementId × Option (Option Identifier × StatementId))) :
    ControlStack → Prop
  | [] => True
  | .block body _ :: stack =>
    (body.this, owner stack) ∈ owners ∧
    (∀ id label this test body' end_while,
      (id, label, .while this test body' end_while) ∈ Statement.listEntries body.statements →
      (body'.this, some (some label, this)) ∈ owners) ∧
    Owned owners stack
  | .loop label this test body end_while :: stack =>
    (∀ l, label = some l → ∃ id, (id, l, .while this test body end_while) ∈ entries stack) ∧
    Owned owners stack
  | _ :: stack => Owned owners stack

end ControlStack

-- The traversal state fits the stack of the point of the program that it has come to.
structure Situated (owners : List (StatementId × Option (Option Identifier × StatementId)))
    (t : Traversal) (σ : LinkState) (stack : ControlStack) : Prop where
  scopes   : t.cur_scope.map Scope.block = stack.blocks
  in_while : t.in_while = stack.in_while
  in_sync  : t.in_sync = stack.in_sync
  recorded : stack.Recorded σ
  owned    : stack.Owned owners
  unique   : (stack.entries.map (·.2.1)).Nodup
  once     : (owners.map Prod.fst).Nodup

section

variable {owners : List (StatementId × Option (Option Identifier × StatementId))} {t : Traversal}
variable {σ σ' : LinkState} {stack : ControlStack}

theorem ControlStack.Recorded.of_eq (h : stack.Recorded σ)
    (hl : ∀ id ∈ stack.ids, σ'.labels id = σ.labels id)
    (hw : ∀ id ∈ stack.ids, σ'.while_in_sync id = σ.while_in_sync id) : stack.Recorded σ' := by
  induction stack
  case nil => trivial
  case cons frame stack ih =>
    cases frame
    case block body rest =>
      simp only [ControlStack.ids, List.mem_cons, forall_eq_or_imp] at hl hw
      exact ⟨hl.1 ▸ h.1, ih h.2 hl.2 hw.2⟩
    case loop label this test body end_while =>
      simp only [ControlStack.ids, List.mem_cons, forall_eq_or_imp] at hl hw
      exact ⟨hw.1 ▸ h.1, ih h.2 hl.2 hw.2⟩
    case branch | sync => exact ih h hl hw

theorem Situated.visited {ids : List StatementId} (h : Situated owners t σ stack)
    (hv : Visited σ σ' ids) (hd : stack.ids.Disjoint ids) : Situated owners t σ' stack :=
  { h with
    recorded := h.recorded.of_eq (fun id hi => hv.labels id (hd hi))
      (fun id hi => hv.in_sync id (hd hi)) }

theorem find_recorded {labels : List LabeledStatement} {in_sync : Option StatementId}
    {entries : List ((StatementId × Identifier × Statement) × List Statement)}
    (h : labels.map LabeledStatement.record = entries.map fun e => (e.1, in_sync))
    (identifier : Identifier) :
    (labels.find? (·.label = identifier)).map LabeledStatement.record =
      (entries.find? (·.1.2.1 = identifier)).map fun e => (e.1, in_sync) := by
  induction labels generalizing entries
  case nil =>
    cases List.map_eq_nil_iff.mp h.symm
    rfl
  case cons label labels ih =>
    cases entries
    case nil => cases h
    case cons entry entries =>
      simp only [List.map_cons, LabeledStatement.record, List.cons.injEq, Prod.mk.injEq] at h
      obtain ⟨⟨he, hs⟩, ht⟩ := h
      have hl : entry.1.2.1 = label.label := by rw [← he]; rfl
      simp only [List.find?_cons, hl]
      split
      · simp only [Option.map_some, LabeledStatement.record, he, hs]
      · exact ih ht

-- Looking for a label in the blocks that we are in.
theorem ControlStack.Recorded.find_label (h : stack.Recorded σ) {identifier : Identifier}
    {label : LabeledStatement} {scopes : List Scope} (hs : scopes.map Scope.block = stack.blocks)
    (hf : Reowolf.find_label σ identifier scopes = .ok label) :
    ∃ next, stack.find_label identifier = some next ∧ next.visit = label.this ∧
      label.in_sync = next.2.in_sync ∧ label.label = identifier ∧ label.entry ∈ stack.entries := by
  induction stack generalizing scopes
  case nil =>
    cases List.map_eq_nil_iff.mp hs
    cases hf
  case cons frame stack ih =>
    cases frame
    case branch | sync => exact ih h hs hf
    case loop => exact ih h.2 hs hf
    case block body rest =>
      cases scopes
      case nil => cases hs
      case cons scope scopes =>
        simp only [List.map_cons, ControlStack.blocks, List.cons.injEq] at hs
        simp only [Reowolf.find_label, hs.1] at hf
        simp only [ControlStack.find_label, ControlStack.entries, List.mem_append]
        have hr := h.1
        rw [Statement.listEntries, List.map_map] at hr
        have hm := find_recorded hr identifier
        split at hf
        case h_1 he =>
          rw [he, Option.map_none, eq_comm, Option.map_eq_none_iff] at hm
          obtain ⟨next, h₁, h₂, h₃, h₄, h₅⟩ := ih h.2 hs.2 hf
          rw [hm]
          exact ⟨next, h₁, h₂, h₃, h₄, .inr h₅⟩
        case h_2 found he =>
          split at hf
          case isTrue => cases hf
          case isFalse =>
            cases hf
            rw [he, Option.map_some, eq_comm, Option.map_eq_some_iff] at hm
            obtain ⟨⟨⟨this, l, stmt⟩, rest'⟩, hm, heq⟩ := hm
            obtain ⟨he₁, he₂⟩ := Prod.mk.inj heq
            have hmem := List.mem_map_of_mem (f := Prod.fst) (List.mem_of_find?_eq_some hm)
            rw [hm]
            have hlabel : label.label = identifier := by simpa using List.find?_some he
            exact ⟨_, rfl, congrArg Prod.fst he₁, he₂.symm, hlabel, .inl (he₁ ▸ hmem)⟩

-- The loop that a block is the body of is on the stack, below the block.
theorem ControlStack.Owned.loop (h : stack.Owned owners) (ho : (owners.map Prod.fst).Nodup)
    {label : Option Identifier} {this block : StatementId} (hb : block ∈ stack.blocks)
    (hm : (block, some (label, this)) ∈ owners) :
    ∃ test body end_while, .loop label this test body end_while ∈ stack := by
  induction stack
  case nil => cases hb
  case cons frame stack ih =>
    have hmono {f : ControlFrame} : (∃ test body end_while, .loop label this test body end_while ∈ stack) →
        ∃ test body end_while, .loop label this test body end_while ∈ f :: stack := by
      rintro ⟨_, _, _, hl⟩
      exact ⟨_, _, _, List.mem_cons_of_mem _ hl⟩
    cases frame
    case branch | sync => exact hmono (ih h hb)
    case loop => exact hmono (ih h.2 hb)
    case block body rest =>
      cases List.mem_cons.mp hb
      case inr hb => exact hmono (ih h.2.2 hb)
      case inl hb =>
        subst hb
        have he := (Prod.mk.inj (List.inj_on_of_nodup_map ho h.1 hm rfl)).2
        match stack with
        | [] | .block .. :: _ | .branch .. :: _ | .sync .. :: _ => cases he
        | .loop .. :: _ =>
          cases he
          exact ⟨_, _, _, List.mem_cons_of_mem _ (List.mem_cons_self ..)⟩

theorem ControlStack.Owned.of_entry (h : stack.Owned owners) {id : StatementId} {label : Identifier}
    {this test body end_while}
    (he : (id, label, .while this test body end_while) ∈ stack.entries) :
    (BlockOf.this body, some (some label, this)) ∈ owners := by
  induction stack
  case nil => cases he
  case cons frame stack ih =>
    cases frame
    case block body' rest =>
      cases List.mem_append.mp he
      case inl he => exact h.2.1 _ _ _ _ _ _ he
      case inr he => exact ih h.2.2 he
    case loop => exact ih h.2 he
    case branch | sync => exact ih h he

-- The innermost loop with a label that some loop has.
theorem ControlStack.Owned.find_loop (h : stack.Owned owners) {l : Identifier}
    {this test body end_while} (hm : .loop (some l) this test body end_while ∈ stack) :
    ∃ this test body end_while outer,
      stack.find_loop (some l) =
        some (some l, .while this test body end_while, end_while, outer) ∧
      ∃ id, (id, l, .while this test body end_while) ∈ stack.entries := by
  induction stack
  case nil => cases hm
  case cons frame stack ih =>
    cases frame
    case branch | sync =>
      simp only [List.mem_cons, reduceCtorEq, false_or] at hm
      exact ih h hm
    case block body' rest =>
      simp only [List.mem_cons, reduceCtorEq, false_or] at hm
      obtain ⟨this, test, body, end_while, outer, hf, id, he⟩ := ih h.2.2 hm
      exact ⟨this, test, body, end_while, outer, hf, id, List.mem_append_right _ he⟩
    case loop label' this' test' body' end_while' =>
      by_cases ht : some l = label'
      case pos =>
        subst ht
        obtain ⟨id, he⟩ := h.1 l rfl
        exact ⟨this', test', body', end_while', stack, if_pos (.inr rfl), id, he⟩
      case neg =>
        cases List.mem_cons.mp hm
        case inl hm =>
          cases hm
          exact absurd rfl ht
        case inr hm =>
          simp only [ControlStack.find_loop, targets, reduceCtorEq, ht, or_self, ite_false]
          exact ih h.2 hm

theorem ControlStack.find_loop_none (stack : ControlStack) {w : WhileStatement}
    (hw : stack.in_while = some w) :
    ∃ label test body outer,
      stack.find_loop none = some (label, .while w.this test body w.end_while, w.end_while, outer) := by
  induction stack
  case nil => cases hw
  case cons frame stack ih =>
    cases frame
    case loop label this test body end_while =>
      cases hw
      simp only [ControlStack.find_loop, targets, true_or, ite_true]
      exact ⟨label, test, body, stack, rfl⟩
    case block | branch | sync => exact ih hw

-- What is recorded of the loop that a jump is about.
theorem ControlStack.Recorded.find_loop (h : stack.Recorded σ)
    {target label : Option Identifier} {this test body end_while} {end_while' : StatementId}
    {outer : ControlStack}
    (hf : stack.find_loop target = some (label, .while this test body end_while, end_while', outer)) :
    σ.while_in_sync this = outer.in_sync := by
  induction stack
  case nil => cases hf
  case cons frame stack ih =>
    cases frame
    case loop =>
      simp only [ControlStack.find_loop] at hf
      split at hf
      · cases hf
        exact h.1
      · exact ih h.2 hf
    case block => exact ih h.2 hf
    case branch | sync => exact ih h hf

theorem Situated.find_while (h : Situated owners t σ stack) {target : Option Identifier}
    {w : WhileStatement} (hf : find_while t σ target = .ok w) :
    ∃ label test body outer,
      stack.find_loop target = some (label, .while w.this test body w.end_while, w.end_while, outer) := by
  cases target
  case none =>
    simp only [Reowolf.find_while] at hf
    split at hf
    case h_1 => cases hf
    case h_2 w' hw =>
      cases hf
      exact stack.find_loop_none (h.in_while ▸ hw)
  case some l =>
    simp only [Reowolf.find_while, Except.bind_eq_ok] at hf
    obtain ⟨label, hl, hf⟩ := hf
    obtain ⟨_, _, _, _, hlabel, hentry⟩ := h.recorded.find_label h.scopes hl
    split at hf
    case h_2 => cases hf
    case h_1 this test body end_while hbody =>
      split at hf
      case isFalse => cases hf
      case isTrue hp =>
        cases hf
        obtain ⟨scope, hs, hsb⟩ := hp
        have hb : body.this ∈ stack.blocks := by
          rw [← h.scopes]
          exact List.mem_map.mpr ⟨scope, hs, hsb⟩
        have hentry : (label.this, l, .while this test body end_while) ∈ stack.entries := by
          rw [← hbody, ← hlabel]
          exact hentry
        have howner := h.owned.of_entry hentry
        obtain ⟨_, _, _, hloop⟩ := h.owned.loop h.once hb howner
        obtain ⟨_, _, _, _, outer, hfind, id, he⟩ := h.owned.find_loop hloop
        cases List.inj_on_of_nodup_map h.unique hentry he rfl
        exact ⟨_, _, _, _, hfind⟩

-- A jump to a loop goes where the structured meaning goes, and stays in the synchronous statement.
theorem Situated.resolve (h : Situated owners t σ stack) {target : Option Identifier}
    {w : WhileStatement} (hr : resolve_break_or_continue_target t σ target = .ok w) :
    ∃ label test body outer,
      stack.find_loop target =
        some (label, .while w.this test body w.end_while, w.end_while, outer) ∧
      outer.in_sync = stack.in_sync := by
  simp only [resolve_break_or_continue_target, Except.bind_eq_ok] at hr
  obtain ⟨w', hf, hr⟩ := hr
  split at hr
  case isTrue => cases hr
  case isFalse hs =>
    cases hr
    obtain ⟨label, test, body, outer, hfind⟩ := h.find_while hf
    have hs : σ.while_in_sync w.this = t.in_sync := by simpa using hs
    exact ⟨label, test, body, outer, hfind, by rw [← h.recorded.find_loop hfind, hs, h.in_sync]⟩

end

end Reowolf
