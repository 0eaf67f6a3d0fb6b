import Reowolf.Protocol.LinkingScan

namespace Reowolf

-- For every block in a statement the loop that it is the body of, if any.
abbrev Owners := List (StatementId × Option (Option Identifier × StatementId))

mutual

def Statement.owners (label : Option Identifier) : Statement → Owners
  | .block body => BlockOf.owners none body
  | .labeled _ label body => body.owners (some label)
  | .if _ _ true_body false_body _ =>
    BlockOf.owners none true_body ++ BlockOf.optionOwners false_body
  | .while this _ body _ => BlockOf.owners (some (label, this)) body
  | .synchronous _ body _ => BlockOf.owners none body
  | _ => []

def BlockOf.owners (owner : Option (Option Identifier × StatementId)) : BlockStatement → Owners
  | ⟨this, statements, _⟩ => (this, owner) :: Statement.listOwners statements

def Statement.listOwners : List Statement → Owners
  | [] => []
  | stmt :: stmts => stmt.owners none ++ Statement.listOwners stmts

def BlockOf.optionOwners : Option BlockStatement → Owners
  | none => []
  | some body => BlockOf.owners none body

end

mutual

theorem Statement.owners_sublist (label : Option Identifier) : (stmt : Statement) →
    ((stmt.owners label).map Prod.fst).Sublist stmt.ids
  | .block body => by simpa [Statement.owners] using BlockOf.owners_sublist none body
  | .labeled _ label' body => by
    simpa [Statement.owners] using (Statement.owners_sublist (some label') body).cons _
  | .if _ _ true_body false_body _ => by
    simp only [Statement.owners, List.map_append, Statement.ids_if]
    have ht := BlockOf.owners_sublist none true_body
    have hf := BlockOf.optionOwners_sublist false_body
    exact ((ht.append hf).trans (List.sublist_append_left _ _)).cons _
  | .while this _ body _ => by
    simp only [Statement.owners, Statement.ids_while]
    exact ((BlockOf.owners_sublist _ body).trans (List.sublist_append_left _ _)).cons _
  | .synchronous _ body _ => by
    simp only [Statement.owners, Statement.ids_synchronous]
    exact ((BlockOf.owners_sublist _ body).trans (List.sublist_append_left _ _)).cons _
  | .memory .. | .channel .. | .break .. | .continue .. | .return .. | .goto .. | .new ..
  | .expression .. => by simp [Statement.owners]

theorem BlockOf.owners_sublist (owner) : (body : BlockStatement) →
    ((BlockOf.owners owner body).map Prod.fst).Sublist body.ids
  | ⟨this, statements, end_block⟩ => by
    simp only [BlockOf.owners, List.map_cons, BlockOf.ids_mk, List.cons_append]
    exact ((Statement.listOwners_sublist statements).trans (List.sublist_append_left _ _)).cons_cons _

theorem Statement.listOwners_sublist : (stmts : List Statement) →
    ((Statement.listOwners stmts).map Prod.fst).Sublist (Statement.listIds stmts)
  | [] => by simp [Statement.listOwners]
  | stmt :: stmts => by
    simp only [Statement.listOwners, List.map_append, Statement.listIds_cons]
    exact (Statement.owners_sublist none stmt).append (Statement.listOwners_sublist stmts)

theorem BlockOf.optionOwners_sublist : (body : Option BlockStatement) →
    ((BlockOf.optionOwners body).map Prod.fst).Sublist (BlockOf.optionIds body)
  | none => by simp [BlockOf.optionOwners]
  | some body => by simpa [BlockOf.optionOwners] using BlockOf.owners_sublist none body

end

-- The labels in front of a loop lead to what its body is recorded with.
theorem Statement.labels_owners {id : StatementId} {l : Identifier} {this test body end_while} :
    (stmt : Statement) → (label : Option Identifier) →
    (id, l, .while this test body end_while) ∈ stmt.labels →
    (body.this, some (some l, this)) ∈ stmt.owners label
  | .labeled this' label' stmt, _, h => by
    simp only [Statement.owners]
    cases List.mem_cons.mp h
    case inl h =>
      cases h
      obtain ⟨_, _, _⟩ := body
      simp [Statement.owners, BlockOf.owners]
    case inr h => exact Statement.labels_owners stmt (some label') h

theorem Statement.listEntries_owners {id : StatementId} {l : Identifier} {this test body end_while}
    {stmts : List Statement}
    (h : (id, l, .while this test body end_while) ∈ Statement.listEntries stmts) :
    (body.this, some (some l, this)) ∈ Statement.listOwners stmts := by
  induction stmts
  case nil => cases h
  case cons stmt stmts ih =>
    simp only [Statement.listEntries_cons, List.mem_append] at h
    simp only [Statement.listOwners, List.mem_append]
    exact h.imp (Statement.labels_owners stmt none) ih

-- What the visit of a part of the tree does to the links. The part is entered at `entry`, and once
-- its last link, that is not set yet, goes to `exit` everything in it is linked.
structure Linking (σ σ' : LinkState) (ids : List StatementId) (entry : StatementId)
    (exit : Option StatementId) (linked : Heap → Prop) : Prop where
  visited : Visited σ σ' ids
  prev    : ∀ id, σ'.prev_stmt = some id → id ∈ ids
  unset   : ∀ id, σ'.prev_stmt = some id → σ.prev_stmt ≠ some id → σ'.next id = σ.next id
  entry   : LinksTo σ σ' ids entry
  linked  : ∀ heap, Settled heap σ' ids →
    (∀ id, σ'.prev_stmt = some id → heap.next id = exit) → linked heap

namespace Linking

variable {σ σ₁ σ₂ : LinkState} {ids ids₁ ids₂ : List StatementId} {e e₁ e₂ : StatementId}
variable {exit exit₁ exit₂ : Option StatementId} {P P₁ P₂ : Heap → Prop}

-- One part after the other: the first one is left to the entry of the second one.
theorem seq (h₁ : Linking σ σ₁ ids₁ e₁ exit₁ P₁) (h₂ : Linking σ₁ σ₂ ids₂ e₂ exit₂ P₂)
    (hd : ids₁.Disjoint ids₂) (he : ∀ id, σ₁.prev_stmt = some id → exit₁ = some e₂) :
    Linking σ σ₂ (ids₁ ++ ids₂) e₁ exit₂ (fun heap => P₁ heap ∧ P₂ heap) where
  visited := h₁.visited.trans h₂.visited
  prev id hp := List.mem_append_right _ (h₂.prev id hp)
  unset id hp hne := by
    have hi₁ : id ∉ ids₁ := fun hi₁ => hd hi₁ (h₂.prev id hp)
    rw [h₂.unset id hp (fun h => hi₁ (h₁.prev id h)), h₁.visited.next id hi₁ hne]
  entry id hp hi := by
    simp only [List.mem_append, not_or] at hi
    have hp₁ : σ₁.prev_stmt ≠ some id := fun h => hi.1 (h₁.prev id h)
    rw [h₂.visited.next id hi.2 hp₁, h₁.entry id hp hi.1]
  linked heap hs hp := by
    have hs₁ := h₂.visited.settled hs (List.subset_append_left _ _) hd
    have hs₂ : Settled heap σ₂ ids₂ := fun id hi => hs id (List.mem_append_right _ hi)
    have hp₁ : ∀ id, σ₁.prev_stmt = some id → heap.next id = exit₁ := by
      intro id hid
      have hi₁ := h₁.prev id hid
      have hi₂ : id ∉ ids₂ := hd hi₁
      have hp₂ : σ₂.prev_stmt ≠ some id := fun h => hi₂ (h₂.prev id h)
      rw [(hs id (List.mem_append_left _ hi₁)).2 hp₂, h₂.entry id hid hi₂, he id hid]
    exact ⟨h₁.linked heap hs₁ hp₁, h₂.linked heap hs₂ hp⟩

theorem mono (h : Linking σ σ₁ ids₁ e exit P) (hs : ids₁ ⊆ ids) : Linking σ σ₁ ids e exit P where
  visited := h.visited.mono hs
  prev id hp := hs (h.prev id hp)
  unset := h.unset
  entry id hp hi := h.entry id hp (fun hm => hi (hs hm))
  linked heap hset hp := h.linked heap (fun id hi => hset id (hs hi)) hp

theorem imp (h : Linking σ σ₁ ids e exit P₁) (hp : ∀ heap, P₁ heap → P₂ heap) :
    Linking σ σ₁ ids e exit P₂ :=
  { h with linked := fun heap hs hl => hp heap (h.linked heap hs hl) }

-- A statement that is left over its own `next`.
theorem replace (σ : LinkState) (this : StatementId) (exit : Option StatementId) :
    Linking σ (σ.assign_and_replace_next_stmt this) [this] this exit
      (fun heap => heap.next this = exit) where
  visited := Visited.replace σ this
  prev id hp := by simp_all
  unset _ _ hne := LinkState.replace_next_ne hne
  entry id hp _ := LinkState.replace_next hp
  linked heap _ hp := hp this (by simp)

-- A statement that is not left over its own `next`.
theorem erase (σ : LinkState) (this : StatementId) (exit : Option StatementId) :
    Linking σ (σ.assign_then_erase_next_stmt this) [] this exit (fun _ => True) where
  visited := Visited.erase σ this
  prev id hp := by simp at hp
  unset _ _ hne := LinkState.erase_next_ne hne
  entry id hp _ := LinkState.erase_next hp
  linked _ _ _ := trivial

-- A jump.
theorem jump (σ : LinkState) (this target : StatementId) (exit : Option StatementId) :
    Linking σ ((σ.assign_then_erase_next_stmt this).set_target this target) [this] this exit
      (fun heap => heap.target this = some target) where
  visited := (Visited.erase σ this).trans (Visited.set_target _ this target) |>.mono (by simp)
  prev id hp := by simp [LinkState.set_target] at hp
  unset _ _ hne := LinkState.erase_next_ne hne
  entry id hp _ := LinkState.erase_next hp
  linked heap hs _ := by
    rw [(hs this (List.mem_singleton_self _)).1]
    exact Function.update_self ..

theorem names (h : Linking σ σ₁ ids e exit P) (names : Names) :
    Linking σ { σ₁ with names } ids e exit P where
  visited := (h.visited.trans (Visited.names σ₁ names)).mono (by simp)
  prev    := h.prev
  unset   := h.unset
  entry   := h.entry
  linked  := h.linked

-- Before the visit nothing was linked yet.
theorem after (h : Linking σ₁ σ₂ ids e exit P) (hv : Visited σ σ₁ ids)
    (hn : σ₁.next = σ.next) (hp : σ₁.prev_stmt = σ.prev_stmt) : Linking σ σ₂ ids e exit P where
  visited := (hv.trans h.visited).mono (by simp)
  prev := h.prev
  unset id hid hne := (h.unset id hid (hp ▸ hne)).trans (congrFun hn id)
  entry id hid hi := h.entry id (hp ▸ hid) hi
  linked := h.linked

-- A part that goes on to a statement that is known already.
theorem closed {next : StatementId} (exit : Option StatementId)
    (h : Linking σ σ₁ ids e (some next) P) :
    Linking σ (σ₁.assign_then_erase_next_stmt next) ids e exit P :=
  ((h.seq (erase σ₁ next exit) (List.disjoint_nil_right _) (fun _ _ => rfl)).imp
    (fun _ hp => hp.1)).mono (by simp)

-- Nothing is linked to a statement that is only jumped to.
theorem opened (hp : σ.prev_stmt = none) (e stmt : StatementId) (exit : Option StatementId) :
    Linking σ { σ with prev_stmt := some stmt } [stmt] e exit (fun heap => heap.next stmt = exit) where
  visited := Visited.set_prev σ stmt
  prev id hid := by simp_all
  unset _ _ _ := rfl
  entry id hid _ := by simp [hp] at hid
  linked heap _ hl := hl stmt rfl

theorem unreached (h : Linking σ σ₁ ids e exit P) (hp : σ.prev_stmt = none) (e' : StatementId) :
    Linking σ σ₁ ids e' exit P :=
  { h with entry := fun id hid _ => by simp [hp] at hid }

theorem nothing (hp : σ.prev_stmt = none) (e : StatementId) (exit : Option StatementId) :
    Linking σ σ [] e exit (fun _ => True) where
  visited := Visited.refl σ
  prev id hid := by simp [hp] at hid
  unset _ _ _ := rfl
  entry id hid _ := by simp [hp] at hid
  linked _ _ _ := trivial

end Linking

-- Where a part of the tree is, when the traversal comes to it.
structure Placed (arena : Arena) (owners : Owners) (stack : ControlStack) (σ : LinkState)
    (nodes : Arena) (own : Owners) : Prop where
  nodup  : nodes.ids.Nodup
  apart  : stack.ids.Disjoint nodes.ids
  arena  : ∀ x ∈ nodes, arena.get x.1 = some x.2
  owners : own ⊆ owners
  fresh  : ∀ id ∈ nodes.ids, σ.labels id = []

theorem Placed.sub {arena : Arena} {owners own own' : Owners} {stack stack' : ControlStack}
    {σ σ' : LinkState} {nodes nodes' : Arena} (h : Placed arena owners stack σ nodes own)
    (hn : nodes'.Sublist nodes) (ho : own' ⊆ own) (ha : stack'.ids.Disjoint nodes'.ids)
    (hl : ∀ id ∈ nodes'.ids, σ'.labels id = σ.labels id) :
    Placed arena owners stack' σ' nodes' own' where
  nodup  := h.nodup.sublist (hn.map _)
  apart  := ha
  arena x hx := h.arena x (hn.subset hx)
  owners := List.Subset.trans ho h.owners
  fresh id hi := (hl id hi).trans (h.fresh id ((hn.map _).subset hi))

end Reowolf
