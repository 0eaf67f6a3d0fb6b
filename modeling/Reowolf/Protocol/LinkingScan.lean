import Reowolf.Protocol.LinkingSpec

namespace Reowolf

-- The labels are passed by.
def Statement.stripped : Statement → Statement
  | .labeled _ _ body => body.stripped
  | stmt              => stmt

-- A statement that is a while statement behind its labels.
def Statement.whiles (stmt : Statement) : List StatementId :=
  match stmt.stripped with
  | .while this .. => [this]
  | _              => []

-- What the breadth-first pass over statements of a block does. Of the labels in the blocks around it
-- only the names count.
structure Scanned (t : Traversal) (block : StatementId) (outer : List Identifier) (σ σ' : LinkState)
    (ids : List StatementId) (entries : List (StatementId × Identifier × Statement))
    (whiles : List StatementId) : Prop where
  next     : σ'.next = σ.next
  target   : σ'.target = σ.target
  prev     : σ'.prev_stmt = σ.prev_stmt
  other    : ∀ id ≠ block, σ'.labels id = σ.labels id
  labels   : ∃ new, σ'.labels block = σ.labels block ++ new ∧
    new.map LabeledStatement.record = entries.map (·, t.in_sync)
  unique   : ((σ.labels block).map (·.label) ++ outer).Nodup →
    ((σ'.labels block).map (·.label) ++ outer).Nodup
  untouched : ∀ id ∉ ids, σ'.while_in_sync id = σ.while_in_sync id
  kept     : ∀ id, σ.while_in_sync id = t.in_sync → σ'.while_in_sync id = t.in_sync
  whiles   : ∀ id ∈ whiles, σ'.while_in_sync id = t.in_sync

namespace Scanned

variable {t : Traversal} {block : StatementId} {outer : List Identifier} {σ σ₁ σ₂ : LinkState}
variable {ids ids₁ ids₂ whiles₁ whiles₂ : List StatementId}
variable {entries₁ entries₂ : List (StatementId × Identifier × Statement)}

theorem names (σ : LinkState) (names : Names) (ids : List StatementId) :
    Scanned t block outer σ { σ with names } ids [] [] where
  next          := rfl
  target        := rfl
  prev          := rfl
  other _ _     := rfl
  labels        := ⟨[], by simp, rfl⟩
  unique h      := h
  untouched _ _ := rfl
  kept _ h      := h
  whiles _ h    := by cases h

theorem refl (σ : LinkState) (ids : List StatementId) : Scanned t block outer σ σ ids [] [] :=
  names σ σ.names ids

theorem trans (h₁ : Scanned t block outer σ σ₁ ids₁ entries₁ whiles₁)
    (h₂ : Scanned t block outer σ₁ σ₂ ids₂ entries₂ whiles₂) :
    Scanned t block outer σ σ₂ (ids₁ ++ ids₂) (entries₁ ++ entries₂) (whiles₁ ++ whiles₂) where
  next   := h₂.next.trans h₁.next
  target := h₂.target.trans h₁.target
  prev   := h₂.prev.trans h₁.prev
  other id hi := (h₂.other id hi).trans (h₁.other id hi)
  labels := by
    obtain ⟨new₁, hl₁, hm₁⟩ := h₁.labels
    obtain ⟨new₂, hl₂, hm₂⟩ := h₂.labels
    exact ⟨new₁ ++ new₂, by rw [hl₂, hl₁, List.append_assoc], by simp [hm₁, hm₂]⟩
  unique h := h₂.unique (h₁.unique h)
  untouched id hi := by
    simp only [List.mem_append, not_or] at hi
    rw [h₂.untouched id hi.2, h₁.untouched id hi.1]
  kept id h := h₂.kept id (h₁.kept id h)
  whiles id h := by
    cases List.mem_append.mp h
    case inl h => exact h₂.kept id (h₁.whiles id h)
    case inr h => exact h₂.whiles id h

theorem mono (h : Scanned t block outer σ σ₁ ids₁ entries₁ whiles₁) (hs : ids₁ ⊆ ids) :
    Scanned t block outer σ σ₁ ids entries₁ whiles₁ :=
  { h with untouched := fun id hi => h.untouched id (fun hm => hi (hs hm)) }

-- All that a label of the blocks around is recorded for stays recorded.
theorem mem_labels (h : Scanned t block outer σ σ₁ ids₁ entries₁ whiles₁) {id : StatementId}
    {label : LabeledStatement} (hl : label ∈ σ.labels id) : label ∈ σ₁.labels id := by
  by_cases hi : id = block
  · subst hi
    obtain ⟨new, hn, _⟩ := h.labels
    rw [hn]
    exact List.mem_append_left _ hl
  · rw [h.other id hi]
    exact hl

end Scanned

-- The names of the labels around a block are those of recorded labels.
def Covered (σ : LinkState) (scopes : List Scope) (outer : List Identifier) : Prop :=
  ∀ name ∈ outer, ∃ scope ∈ scopes, ∃ label ∈ σ.labels scope.block, label.label = name

section

variable {ctx : LinkCtx} {t : Traversal} {outer : List Identifier} {σ σ' : LinkState}
variable {scope : Scope} {scopes : List Scope} {pos : Nat}

theorem Covered.scanned {block : StatementId} {ids entries whiles}
    (h : Covered σ scopes outer) (hs : Scanned t block outer σ σ' ids entries whiles) :
    Covered σ' scopes outer := by
  intro name hn
  obtain ⟨scope, hm, label, hl, he⟩ := h name hn
  exact ⟨scope, hm, label, hs.mem_labels hl, he⟩

theorem Scanned.add_local {id : VariableId} (h : add_local_to_state ctx t pos id σ = .ok σ')
    (ids : List StatementId) : Scanned t scope.block outer σ σ' ids [] [] := by
  simp only [add_local_to_state, Except.bind_eq_ok] at h
  obtain ⟨names, _, h⟩ := h
  cases h
  exact Scanned.names σ names ids

theorem Scanned.add_label {this : StatementId} {label : Identifier} {body : Statement}
    (ht : t.cur_scope = scope :: scopes) (hc : Covered σ scopes outer)
    (h : checked_add_label t pos this label body σ = .ok σ') :
    Scanned t scope.block outer σ σ' [] [(this, label, body)] [] := by
  simp only [checked_add_label, ht] at h
  split at h
  case isTrue => cases h
  case isFalse hne =>
    cases h
    exact {
      next          := rfl
      target        := rfl
      prev          := rfl
      other id hi   := Function.update_of_ne hi _ _
      labels        := ⟨[⟨this, label, body, pos, t.in_sync⟩], Function.update_self .., rfl⟩
      unique hn     := by
        have hhere : label ∉ (σ.labels scope.block).map (·.label) := by
          intro hm
          obtain ⟨other, ho, he⟩ := List.mem_map.mp hm
          exact hne ⟨scope, List.mem_cons_self .., other, ho, he⟩
        have houter : label ∉ outer := by
          intro hm
          obtain ⟨scope', hs, other, ho, he⟩ := hc label hm
          exact hne ⟨scope', List.mem_cons_of_mem _ hs, other, ho, he⟩
        simp only [Function.update_self, List.map_append, List.map_cons, List.map_nil,
          List.append_assoc, List.cons_append, List.nil_append]
        rw [List.nodup_middle, List.nodup_cons]
        exact ⟨by simp only [List.mem_append, not_or]; exact ⟨hhere, houter⟩, hn⟩
      untouched _ _ := rfl
      kept _ hk     := hk
      whiles _ hm   := by cases hm }

theorem Scanned.visit_statement (ht : t.cur_scope = scope :: scopes) :
    (stmt : Statement) → {σ σ' : LinkState} → Covered σ scopes outer →
    visit_statement_for_locals_labels_and_in_sync ctx t pos stmt σ = .ok σ' →
    Scanned t scope.block outer σ σ' stmt.ids stmt.labels stmt.whiles
  | .memory this id, σ, σ', _, h => .add_local h _
  | .channel this from_id to_id, σ, σ', _, h => by
    simp only [visit_statement_for_locals_labels_and_in_sync, Except.bind_eq_ok] at h
    obtain ⟨σ₁, h₁, h₂⟩ := h
    exact (Scanned.trans (.add_local h₁ []) (.add_local h₂ []) :).mono (by simp)
  | .labeled this label body, σ, σ', hc, h => by
    simp only [visit_statement_for_locals_labels_and_in_sync, Except.bind_eq_ok] at h
    obtain ⟨σ₁, h₁, h₂⟩ := h
    have hs₁ := Scanned.add_label ht hc h₁
    have hs₂ := Scanned.visit_statement ht body (hc.scanned hs₁) h₂
    exact (hs₁.trans hs₂).mono (by simp)
  | .while this test body end_while, σ, σ', _, h => by
    cases h
    exact {
      next          := rfl
      target        := rfl
      prev          := rfl
      other _ _     := rfl
      labels        := ⟨[], by simp, rfl⟩
      unique hn     := hn
      untouched id hi := Function.update_of_ne (fun he => hi (by simp [he])) _ _
      kept id hk    := by
        by_cases hi : id = this
        · rw [hi]
          exact Function.update_self ..
        · exact (Function.update_of_ne hi _ _).trans hk
      whiles id hm  := by
        cases List.mem_singleton.mp hm
        exact Function.update_self .. }
  | .block _, σ, _, _, h | .if .., σ, _, _, h | .break .., σ, _, _, h | .continue .., σ, _, _, h
  | .synchronous .., σ, _, _, h | .return .., σ, _, _, h | .goto .., σ, _, _, h
  | .new .., σ, _, _, h | .expression .., σ, _, _, h => by
    cases h
    exact .refl σ _

theorem Scanned.visit_statements (ht : t.cur_scope = scope :: scopes) {stmts : List Statement}
    (hc : Covered σ scopes outer)
    (h : visit_statements_for_locals_labels_and_in_sync ctx t pos stmts σ = .ok σ') :
    Scanned t scope.block outer σ σ' (Statement.listIds stmts) (Statement.listEntries stmts)
      (stmts.flatMap Statement.whiles) := by
  induction stmts generalizing pos σ
  case nil =>
    cases h
    exact .refl σ' _
  case cons stmt stmts ih =>
    simp only [visit_statements_for_locals_labels_and_in_sync, Except.bind_eq_ok] at h
    obtain ⟨σ₁, h₁, h₂⟩ := h
    have hs₁ := Scanned.visit_statement ht stmt hc h₁
    have hs₂ := ih (hc.scanned hs₁) h₂
    simpa using hs₁.trans hs₂

end

end Reowolf
