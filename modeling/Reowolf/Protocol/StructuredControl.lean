import Reowolf.Protocol.ControlFlow

namespace Reowolf

variable {arena : Arena} {owners : Owners} {ctx : LinkCtx}

theorem visit_expr_in_state_eq {t : Traversal} {expr : Expression} {σ σ' : LinkState}
    (h : visit_expr_in_state ctx t expr σ = .ok σ') : ∃ names, σ' = { σ with names } := by
  simp only [visit_expr_in_state, Except.bind_eq_ok] at h
  obtain ⟨names, _, h⟩ := h
  cases h
  exact ⟨names, rfl⟩

theorem Statement.whiles_subset : (stmt : Statement) → stmt.whiles ⊆ stmt.ids
  | .labeled this label body => by
    have h : (Statement.labeled this label body).whiles = body.whiles := rfl
    rw [h, Statement.ids_labeled]
    exact List.Subset.trans (Statement.whiles_subset body) (List.subset_cons_self _ _)
  | .while .. => by simp [Statement.whiles, Statement.stripped]
  | .block _ | .memory .. | .channel .. | .if .. | .break .. | .continue .. | .synchronous ..
  | .return .. | .goto .. | .new .. | .expression .. => List.nil_subset _

theorem Statement.whiles_list_subset (stmts : List Statement) :
    stmts.flatMap Statement.whiles ⊆ Statement.listIds stmts := by
  induction stmts
  case nil => exact List.nil_subset _
  case cons stmt stmts ih =>
    rw [List.flatMap_cons, Statement.listIds_cons]
    exact List.append_subset.mpr
      ⟨List.Subset.trans (Statement.whiles_subset stmt) (List.subset_append_left _ _),
        List.Subset.trans ih (List.subset_append_right _ _)⟩

theorem Arena.ids_append (nodes nodes' : Arena) : Arena.ids (nodes ++ nodes') = nodes.ids ++ nodes'.ids :=
  List.map_append

-- The labels around a block are recorded.
theorem ControlStack.Recorded.covered {stack : ControlStack} {σ : LinkState} {scopes : List Scope}
    (h : stack.Recorded σ) (hs : scopes.map Scope.block = stack.blocks) :
    Covered σ scopes (stack.entries.map (·.2.1)) := by
  induction stack generalizing scopes
  case nil =>
    intro name hn
    cases hn
  case cons frame stack ih =>
    cases frame
    case branch | sync => exact ih h hs
    case loop => exact ih h.2 hs
    case block body rest =>
      cases scopes
      case nil => cases hs
      case cons scope scopes =>
        simp only [List.map_cons, ControlStack.blocks, List.cons.injEq] at hs
        intro name hn
        simp only [ControlStack.entries, List.map_append, List.mem_append] at hn
        cases hn
        case inl hn =>
          obtain ⟨entry, he, hname⟩ := List.mem_map.mp hn
          have hm : (entry, in_sync stack) ∈ (σ.labels body.this).map LabeledStatement.record := by
            rw [h.1]
            exact List.mem_map_of_mem he
          obtain ⟨label, hl, hr⟩ := List.mem_map.mp hm
          have hentry : label.entry = entry := (Prod.mk.inj hr).1
          exact ⟨scope, List.mem_cons_self .., label, hs.1 ▸ hl, by rw [← hname, ← hentry]; rfl⟩
        case inr hn =>
          obtain ⟨scope', hm, hl⟩ := ih h.2 hs.2 name hn
          exact ⟨scope', List.mem_cons_of_mem _ hm, hl⟩

-- Going into a block, after its breadth-first pass.
theorem Situated.enter {t : Traversal} {σ σ₁ : LinkState} {stack : ControlStack}
    {body : BlockStatement} {whiles : List StatementId} (rest : List Statement)
    (h : Situated owners t σ stack)
    (hs : Scanned (t.enter body) body.this (stack.entries.map (·.2.1)) σ σ₁
      (Statement.listIds body.statements) (Statement.listEntries body.statements) whiles)
    (ho : BlockOf.owners stack.owner body ⊆ owners) (hf : σ.labels body.this = [])
    (ha : stack.ids.Disjoint body.ids) :
    Situated owners (t.enter body) σ₁ (.block body rest :: stack) := by
  obtain ⟨this, statements, end_block⟩ := body
  obtain ⟨new, hn, hr⟩ := hs.labels
  simp only [hf, List.nil_append] at hn
  simp only [BlockOf.ids_mk] at ha
  have hthis : this ∉ stack.ids := fun hm => ha hm (by simp)
  have hin : (t.enter ⟨this, statements, end_block⟩).in_sync = stack.in_sync := h.in_sync
  have hrecorded : stack.Recorded σ₁ := by
    apply h.recorded.of_eq
    · intro id hi
      apply hs.other
      rintro rfl
      exact hthis hi
    · exact fun id hi => hs.untouched id (fun hm => ha hi (by simp [hm]))
  have hnames : (σ₁.labels this).map (·.label) =
      (Statement.listEntries statements).map (·.2.1) := by
    have := congrArg (List.map (·.1.2.1)) hr
    simpa only [hn, List.map_map, Function.comp_def, LabeledStatement.record,
      LabeledStatement.entry] using this
  exact {
    scopes   := by simp only [Traversal.enter, List.map_cons, h.scopes, ControlStack.blocks]
    in_while := h.in_while
    in_sync  := h.in_sync
    recorded := ⟨by rw [hn, hr, hin], hrecorded⟩
    owned    := by
      simp only [BlockOf.owners, List.cons_subset] at ho
      exact ⟨ho.1, fun _ _ _ _ _ _ hm => ho.2 (Statement.listEntries_owners hm), h.owned⟩
    unique   := by
      have := hs.unique (by simpa [hf] using h.unique)
      rw [ControlStack.entries, List.map_append]
      rwa [hnames] at this
    once     := h.once }

theorem Scanned.visited {t : Traversal} {block : StatementId} {outer : List Identifier}
    {σ σ' : LinkState} {ids whiles : List StatementId}
    {entries : List (StatementId × Identifier × Statement)}
    (h : Scanned t block outer σ σ' ids entries whiles) : Visited σ σ' (block :: ids) where
  next id _ _   := by rw [h.next]
  target id _   := by rw [h.target]
  labels id hi  := h.other id (fun he => hi (he ▸ List.mem_cons_self ..))
  in_sync id hi := h.untouched id (fun hm => hi (List.mem_cons_of_mem _ hm))
  prev id hp    := .inr (h.prev ▸ hp)

-- The statement that comes next in a block.
def Statement.listEntry (end_block : StatementId) : List Statement → StatementId
  | []        => end_block
  | stmt :: _ => stmt.entry

theorem ControlStack.exit_block (body : BlockStatement) (stack : ControlStack)
    (stmts : List Statement) :
    ControlStack.exit (.block body stmts :: stack) =
      some (Statement.listEntry body.end_block stmts) := by
  cases stmts
  case nil => rfl
  case cons stmt stmts => exact congrArg some (Statement.visit_enter _ stmt none)

theorem LinkState.set_target_erase (σ : LinkState) (this target stmt : StatementId) :
    (σ.set_target this target).assign_then_erase_next_stmt stmt =
      (σ.assign_then_erase_next_stmt stmt).set_target this target := by
  obtain ⟨heap, prev_stmt⟩ := σ
  cases prev_stmt <;> rfl

theorem Situated.of_eq {t : Traversal} {σ σ' : LinkState} {stack : ControlStack}
    (h : Situated owners t σ stack) (hl : σ'.labels = σ.labels)
    (hw : σ'.while_in_sync = σ.while_in_sync) : Situated owners t σ' stack :=
  { h with recorded := h.recorded.of_eq (fun _ _ => by rw [hl]) (fun _ _ => by rw [hw]) }

-- The rest of the statements of a block does not matter for where we are.
theorem Situated.rest {t : Traversal} {σ : LinkState} {stack : ControlStack}
    {body : BlockStatement} {rest : List Statement} (rest' : List Statement)
    (h : Situated owners t σ (.block body rest :: stack)) :
    Situated owners t σ (.block body rest' :: stack) :=
  ⟨h.scopes, h.in_while, h.in_sync, h.recorded, h.owned, h.unique, h.once⟩

theorem Situated.moved {t : Traversal} {σ : LinkState} {stack : ControlStack} (pos : Nat)
    (h : Situated owners t σ stack) :
    Situated owners { t with relative_pos_in_block := pos } σ stack :=
  ⟨h.scopes, h.in_while, h.in_sync, h.recorded, h.owned, h.unique, h.once⟩

mutual

theorem Linking.visit_stmt : (stmt : Statement) → ∀ {t : Traversal} {σ σ' : LinkState}
    {stack : ControlStack} {label : Option Identifier}, Situated owners t σ stack →
    Placed arena owners stack σ stmt.nodes (stmt.owners label) → stack.owner = none →
    (∀ id ∈ stmt.whiles, σ.while_in_sync id = stack.in_sync) → stmt.labels ⊆ stack.entries →
    (∀ l, label = some l → ∃ id, (id, l, stmt) ∈ stack.entries) →
    visit_stmt ctx t stmt σ = .ok σ' →
    Linking σ σ' stmt.ids stmt.entry stack.exit (fun heap => stmt.Everywhere (LinkedAt arena heap) stack label)
  | .block body, t, σ, σ', stack, label, hs, hp, ho, _, _, _, h => by
    simp only [Statement.owners, Statement.nodes] at hp
    simp only [Statement.ids_block, Statement.Everywhere]
    exact Linking.visit_block_stmt body hs (ho ▸ hp) h
  | .memory .., t, σ, σ', stack, label, hs, hp, _, _, _, _, h
  | .channel .., t, σ, σ', stack, label, hs, hp, _, _, _, _, h => by
    cases h
    have hget := hp.arena _ (List.mem_singleton_self _)
    exact (Linking.replace σ _ stack.exit).imp (fun heap hn => ⟨hget, hn⟩)
  | .expression this expression, t, σ, σ', stack, label, hs, hp, _, _, _, _, h => by
    obtain ⟨names, he⟩ := visit_expr_in_state_eq h
    have hget := hp.arena _ (List.mem_singleton_self _)
    rw [he]
    exact ((Linking.replace σ this stack.exit).names names).imp (fun heap hn => ⟨hget, hn⟩)
  | .new this call method arguments definition, t, σ, σ', stack, label, hs, hp, _, _, _, _, h => by
    simp only [Reowolf.visit_stmt] at h
    split at h
    case isTrue => cases h
    case isFalse =>
      simp only [Except.bind_eq_ok] at h
      obtain ⟨names, _, he⟩ := h
      cases he
      have hget := hp.arena _ (List.mem_singleton_self _)
      exact ((Linking.replace σ this stack.exit).names names).imp (fun heap hn => ⟨hget, hn⟩)
  | .return this expression, t, σ, σ', stack, label, hs, hp, _, _, _, _, h => by
    simp only [Reowolf.visit_stmt] at h
    split at h
    case isTrue => cases h
    case isFalse =>
      obtain ⟨names, he⟩ := visit_expr_in_state_eq h
      have hget := hp.arena _ (List.mem_singleton_self _)
      rw [he]
      exact (((Linking.erase σ this stack.exit).names names).mono (List.nil_subset _)).imp
        (fun heap _ => ⟨hget, trivial⟩)
  | .break this target, t, σ, σ', stack, label, hs, hp, _, _, _, _, h => by
    simp only [Reowolf.visit_stmt, Except.bind_eq_ok] at h
    obtain ⟨w, hr, he⟩ := h
    cases he
    obtain ⟨l, test, body, outer, hf, hi⟩ := hs.resolve hr
    have hget := hp.arena _ (List.mem_singleton_self _)
    exact (Linking.jump σ this w.end_while stack.exit).imp
      (fun heap ht => ⟨hget, _, _, _, _, hf, ht, hi⟩)
  | .continue this target, t, σ, σ', stack, label, hs, hp, _, _, _, _, h => by
    simp only [Reowolf.visit_stmt, Except.bind_eq_ok] at h
    obtain ⟨w, hr, he⟩ := h
    cases he
    obtain ⟨l, test, body, outer, hf, hi⟩ := hs.resolve hr
    have hget := hp.arena _ (List.mem_singleton_self _)
    exact (Linking.jump σ this w.this stack.exit).imp
      (fun heap ht => ⟨hget, _, _, _, _, hf, ht, hi⟩)
  | .goto this target, t, σ, σ', stack, label, hs, hp, _, _, _, _, h => by
    simp only [Reowolf.visit_stmt, Except.bind_eq_ok] at h
    obtain ⟨l, hfind, he⟩ := h
    split at he
    case isTrue => cases he
    case isFalse hin =>
      cases he
      obtain ⟨next, hn, hv, hsync, _⟩ := hs.recorded.find_label hs.scopes hfind
      have hstay : next.2.in_sync = stack.in_sync := by
        rw [← hsync, ← hs.in_sync]
        exact (not_not.mp hin).symm
      have hget := hp.arena _ (List.mem_singleton_self _)
      rw [LinkState.set_target_erase]
      exact (Linking.jump σ this l.this stack.exit).imp
        (fun heap ht => ⟨hget, next, hn, hv ▸ ht, hstay⟩)
  | .labeled this l body, t, σ, σ', stack, label, hs, hp, ho, hw, hl, _, h => by
    simp only [Statement.owners, Statement.nodes] at hp
    have hl' := List.cons_subset.mp hl
    have hn := List.nodup_cons.mp hp.nodup
    have hp' : Placed arena owners stack σ body.nodes (body.owners (some l)) :=
      hp.sub (List.sublist_cons_self _ _) (List.Subset.refl _)
        (List.disjoint_of_subset_right (List.subset_cons_self _ _) hp.apart) (fun _ _ => rfl)
    have L := Linking.visit_stmt body hs hp' ho hw hl'.2
      (fun l' he => ⟨this, Option.some.inj he ▸ hl'.1⟩) h
    have hget := hp.arena _ (List.mem_cons_self ..)
    rw [Statement.ids_labeled]
    apply (L.mono (List.subset_cons_self _ _)).imp
    intro heap hb
    simp only [Statement.Everywhere]
    exact ⟨⟨hget, trivial⟩, hb⟩
  | .while this test body end_while, t, σ, σ', stack, label, hs, hp, _, hw, _, hl, h => by
    simp only [Reowolf.visit_stmt, Except.bind_eq_ok] at h
    obtain ⟨σ₁, hexpr, σ₂, hbody, he⟩ := h
    obtain ⟨names, hnames⟩ := visit_expr_in_state_eq hexpr
    subst hnames
    cases he
    have hn : (Statement.while this test body end_while).ids.Nodup := hp.nodup
    have ha : stack.ids.Disjoint (Statement.while this test body end_while).ids := hp.apart
    simp only [Statement.ids_while, List.nodup_cons, List.nodup_append', List.mem_append, not_or,
      List.disjoint_singleton] at hn
    simp only [Statement.ids_while, List.disjoint_cons_right, List.disjoint_append_right] at ha
    obtain ⟨⟨hthis, hne⟩, _, _, hend⟩ := hn
    let stack' : ControlStack := .loop label this test body end_while :: stack
    have hs' : Situated owners { t with in_while := some ⟨this, body.this, end_while⟩ }
        ({ σ with names }.assign_then_erase_next_stmt this) stack' := by
      apply Situated.of_eq (σ := σ)
      case hl => simp
      case hw => simp
      exact ⟨hs.scopes, rfl, hs.in_sync, ⟨hw this (List.mem_singleton_self _), hs.recorded⟩,
        ⟨hl, hs.owned⟩, hs.unique, hs.once⟩
    have hp' : Placed arena owners stack' ({ σ with names }.assign_then_erase_next_stmt this)
        (BlockOf.nodes body) (BlockOf.owners stack'.owner body) := by
      apply hp.sub
      case hn =>
        simp only [Statement.nodes]
        exact (List.sublist_append_left _ _).cons _
      case ho => simp [Statement.owners, ControlStack.owner, stack']
      case ha => exact List.disjoint_cons_left.mpr ⟨hthis, ha.2.1⟩
      case hl => simp
    have L₀ := (Linking.erase { σ with names } this none).mono (List.nil_subset [this])
    have L₁ := (Linking.visit_block_stmt body hs' hp' hbody).closed (some end_while)
    have hopen : (σ₂.assign_then_erase_next_stmt this).prev_stmt = none := LinkState.erase_prev
    have L₂ := Linking.opened hopen end_while end_while stack.exit
    have hd : [this].Disjoint (body.ids ++ [end_while]) := by simp [hthis, hne]
    have L := L₀.seq (L₁.seq L₂ (by simpa using hend) (fun _ _ => rfl)) hd (fun _ hp => by simp at hp)
    have hv : Visited σ { σ with names } ([this] ++ (body.ids ++ [end_while])) :=
      (Visited.names σ names).mono (List.nil_subset _)
    have hget := hp.arena _ (List.mem_cons_self ..)
    have hget_end := hp.arena (end_while, .endWhile this) (by simp [Statement.nodes])
    rw [Statement.ids_while]
    apply (L.after hv rfl rfl).imp
    rintro heap ⟨_, hbody, hexit⟩
    simp only [Statement.Everywhere]
    exact ⟨⟨hget, hget_end, hexit⟩, hbody⟩
  | .synchronous this body end_sync, t, σ, σ', stack, label, hs, hp, _, _, _, _, h => by
    simp only [Reowolf.visit_stmt] at h
    split at h
    case isTrue => cases h
    case isFalse =>
      split at h
      case isTrue => cases h
      case isFalse =>
        simp only [Except.bind_eq_ok] at h
        obtain ⟨σ₂, hbody, he⟩ := h
        cases he
        have hn : (Statement.synchronous this body end_sync).ids.Nodup := hp.nodup
        have ha : stack.ids.Disjoint (Statement.synchronous this body end_sync).ids := hp.apart
        simp only [Statement.ids_synchronous, List.nodup_cons, List.nodup_append', List.mem_append,
          not_or, List.disjoint_singleton] at hn
        simp only [Statement.ids_synchronous, List.disjoint_cons_right,
          List.disjoint_append_right] at ha
        obtain ⟨⟨hthis, hne⟩, _, _, hend⟩ := hn
        let stack' : ControlStack := .sync this body end_sync :: stack
        have hs' : Situated owners { t with in_sync := some this }
            (σ.assign_then_erase_next_stmt this) stack' :=
          Situated.of_eq ⟨hs.scopes, hs.in_while, rfl, hs.recorded, hs.owned, hs.unique, hs.once⟩
            (by simp) (by simp)
        have hp' : Placed arena owners stack' (σ.assign_then_erase_next_stmt this)
            (BlockOf.nodes body) (BlockOf.owners stack'.owner body) := by
          apply hp.sub
          case hn =>
            simp only [Statement.nodes]
            exact (List.sublist_append_left _ _).cons _
          case ho => simp [Statement.owners, ControlStack.owner, stack']
          case ha => exact ha.2.1
          case hl => simp
        have L₀ := (Linking.erase σ this none).mono (List.nil_subset [this])
        have L₁ := Linking.visit_block_stmt body hs' hp' hbody
        have L₂ := Linking.replace σ₂ end_sync stack.exit
        have hd : [this].Disjoint (body.ids ++ [end_sync]) := by simp [hthis, hne]
        have L := L₀.seq (L₁.seq L₂ (by simpa using hend) (fun _ _ => rfl)) hd
          (fun _ hp => by simp at hp)
        have hget := hp.arena _ (List.mem_cons_self ..)
        have hget_end := hp.arena (end_sync, .endSynchronous this) (by simp [Statement.nodes])
        rw [Statement.ids_synchronous]
        apply L.imp
        rintro heap ⟨_, hbody, hexit⟩
        simp only [Statement.Everywhere]
        exact ⟨⟨hget, hget_end, hexit⟩, hbody⟩
  | .if this test true_body false_body end_if, t, σ, σ', stack, label, hs, hp, _, _, _, _, h => by
    simp only [Reowolf.visit_stmt, Except.bind_eq_ok] at h
    obtain ⟨σ₁, hexpr, σ₂, htrue, σ₃, hfalse, he⟩ := h
    obtain ⟨names, hnames⟩ := visit_expr_in_state_eq hexpr
    subst hnames
    cases he
    have hn : (Statement.if this test true_body false_body end_if).ids.Nodup := hp.nodup
    have ha : stack.ids.Disjoint (Statement.if this test true_body false_body end_if).ids := hp.apart
    simp only [Statement.ids_if, List.append_assoc, List.nodup_cons, List.nodup_append',
      List.mem_append, not_or, List.disjoint_append_right, List.disjoint_singleton] at hn
    simp only [Statement.ids_if, List.append_assoc, List.disjoint_cons_right,
      List.disjoint_append_right] at ha
    obtain ⟨⟨hthis, hthis', hne⟩, _, ⟨_, _, hend'⟩, hd, hend⟩ := hn
    let stack' : ControlStack := .branch this test true_body false_body end_if :: stack
    let σ₀ := { σ with names }.assign_then_erase_next_stmt this
    have hs₁ : Situated owners t σ₀ stack' :=
      Situated.of_eq (σ := σ) ⟨hs.scopes, hs.in_while, hs.in_sync, hs.recorded, hs.owned, hs.unique,
        hs.once⟩ (by simp [σ₀]) (by simp [σ₀])
    have hp₁ : Placed arena owners stack' σ₀ (BlockOf.nodes true_body)
        (BlockOf.owners none true_body) := by
      apply hp.sub
      case hn =>
        simp only [Statement.nodes, List.cons_append, List.append_assoc]
        exact (List.sublist_append_left _ _).cons _
      case ho => exact List.subset_append_left _ _
      case ha => exact ha.2.1
      case hl => simp [σ₀]
    have L₁ := (Linking.visit_block_stmt true_body hs₁ hp₁ htrue).closed (some end_if)
    have hs₂ := hs₁.visited L₁.visited ha.2.1
    have hp₂ : Placed arena owners stack' (σ₂.assign_then_erase_next_stmt end_if)
        (BlockOf.optionNodes false_body) (BlockOf.optionOwners false_body) := by
      apply hp.sub
      case hn =>
        simp only [Statement.nodes, List.cons_append, List.append_assoc]
        exact ((List.sublist_append_left _ _).trans (List.sublist_append_right _ _)).cons _
      case ho => exact List.subset_append_right _ _
      case ha => exact ha.2.2.1
      case hl =>
        intro id hi
        exact (L₁.visited.labels id (fun hm => hd hm hi)).trans (by simp [σ₀])
    have hopen : (σ₂.assign_then_erase_next_stmt end_if).prev_stmt = none := LinkState.erase_prev
    obtain ⟨L₂, hopen'⟩ := Linking.visit_false_body false_body hs₂ hp₂ rfl rfl hopen hfalse
    have L₀ := (Linking.erase { σ with names } this none).mono (List.nil_subset [this])
    have L₃ := Linking.opened hopen' end_if end_if stack.exit
    have L₂₃ := L₂.seq L₃ (by simpa using hend') (fun _ _ => rfl)
    have hd₁ : true_body.ids.Disjoint (BlockOf.optionIds false_body ++ [end_if]) :=
      List.disjoint_append_right.mpr ⟨hd, List.disjoint_singleton.mpr hend⟩
    have hd₀ : [this].Disjoint (true_body.ids ++ (BlockOf.optionIds false_body ++ [end_if])) := by
      simp [hthis, hthis', hne]
    have L := L₀.seq (L₁.seq L₂₃ hd₁ (fun _ _ => rfl)) hd₀ (fun _ hp => by simp at hp)
    have hv := (Visited.names σ names).mono
      (List.nil_subset ([this] ++ (true_body.ids ++ (BlockOf.optionIds false_body ++ [end_if]))))
    have hget := hp.arena _ (List.mem_cons_self ..)
    have hget_end := hp.arena (end_if, .endIf this) (by simp [Statement.nodes])
    rw [Statement.ids_if, List.append_assoc]
    apply (L.after hv rfl rfl).imp
    rintro heap ⟨_, htrue, hfalse, hexit⟩
    simp only [Statement.Everywhere]
    exact ⟨⟨hget, hget_end, hexit⟩, htrue, hfalse⟩

theorem Linking.visit_block_stmt : (body : BlockStatement) → ∀ {t : Traversal} {σ σ' : LinkState}
    {stack : ControlStack}, Situated owners t σ stack →
    Placed arena owners stack σ (BlockOf.nodes body) (BlockOf.owners stack.owner body) →
    visit_block_stmt ctx t body σ = .ok σ' →
    Linking σ σ' body.ids body.this stack.exit
      (fun heap => body.Everywhere (LinkedAt arena heap) stack)
  | ⟨this, statements, end_block⟩, t, σ, σ', stack, hs, hp, h => by
    simp only [Reowolf.visit_block_stmt, Except.bind_eq_ok] at h
    obtain ⟨σ₁, h₁, σ₂, h₂, h₃⟩ := h
    cases h₃
    have hscan := Scanned.visit_statements rfl (hs.recorded.covered hs.scopes) h₁
    have hn : (BlockOf.ids ⟨this, statements, end_block⟩).Nodup := hp.nodup
    have ha : stack.ids.Disjoint (BlockOf.ids ⟨this, statements, end_block⟩) := hp.apart
    have hs₁ := hs.enter statements hscan hp.owners (hp.fresh this (by simp [BlockOf.nodes, Arena.ids])) ha
    have hs₂ : Situated owners (t.enter ⟨this, statements, end_block⟩)
        (σ₁.assign_and_replace_next_stmt this) (.block ⟨this, statements, end_block⟩ statements :: stack) :=
      { hs₁ with recorded := hs₁.recorded.of_eq (fun _ _ => by simp) (fun _ _ => by simp) }
    simp only [BlockOf.ids_mk, List.cons_append, List.nodup_cons, List.mem_append, not_or,
      List.nodup_append', List.disjoint_singleton] at hn
    obtain ⟨⟨hthis, hne⟩, _, _, hend⟩ := hn
    have hp₂ : Placed arena owners (.block ⟨this, statements, end_block⟩ statements :: stack)
        (σ₁.assign_and_replace_next_stmt this) (Statement.listNodes statements)
        (Statement.listOwners statements) := by
      apply hp.sub
      case hn => 
        simp only [BlockOf.nodes, List.cons_append]
        exact (List.sublist_append_left _ _).cons _
      case ho => exact List.subset_cons_self _ _
      case ha =>
        simp only [ControlStack.ids, List.disjoint_cons_left]
        exact ⟨hthis, fun id hi hm => ha hi (by simp [show id ∈ Statement.listIds statements from hm])⟩
      case hl =>
        intro id hi
        rw [LinkState.replace_labels]
        apply hscan.other
        rintro rfl
        exact hthis hi
    have hw : ∀ id ∈ statements.flatMap Statement.whiles,
        (σ₁.assign_and_replace_next_stmt this).while_in_sync id = stack.in_sync := by
      intro id hi
      rw [LinkState.replace_while_in_sync, hscan.whiles id hi]
      exact hs.in_sync
    have L₁ := Linking.replace σ₁ this (ControlStack.exit (.block ⟨this, statements, end_block⟩ statements :: stack))
    have L₂ := Linking.visit_stmts statements hs₂ hp₂ hw (List.Subset.refl _) hend h₂
    have hd : [this].Disjoint (Statement.listIds statements ++ [end_block]) := by
      simp [hthis, hne]
    have L := L₁.seq L₂ hd
      (fun _ _ => ControlStack.exit_block ⟨this, statements, end_block⟩ stack statements)
    have hv : Visited σ σ₁ ([this] ++ (Statement.listIds statements ++ [end_block])) :=
      hscan.visited.mono (by simp)
    rw [BlockOf.ids_mk]
    apply (L.after hv hscan.next hscan.prev).imp
    rintro heap ⟨hnext, hlist, hexit⟩
    simp only [BlockOf.Everywhere]
    have hget := hp.arena (this, .statement (.block ⟨this, statements, end_block⟩))
      (by simp [BlockOf.nodes])
    have hget_end := hp.arena (end_block, .endBlock this) (by simp [BlockOf.nodes])
    exact ⟨⟨hget, hget_end, hnext, hexit⟩, hlist⟩

theorem Linking.visit_stmts {body : BlockStatement} : (stmts : List Statement) →
    ∀ {t : Traversal} {σ σ' : LinkState} {stack : ControlStack} {pos : Nat},
    Situated owners t σ (.block body stmts :: stack) →
    Placed arena owners (.block body stmts :: stack) σ (Statement.listNodes stmts)
      (Statement.listOwners stmts) →
    (∀ id ∈ stmts.flatMap Statement.whiles, σ.while_in_sync id = stack.in_sync) →
    Statement.listEntries stmts ⊆ Statement.listEntries body.statements →
    body.end_block ∉ Statement.listIds stmts →
    visit_stmts ctx t pos stmts σ = .ok σ' →
    Linking σ (σ'.assign_and_replace_next_stmt body.end_block)
      (Statement.listIds stmts ++ [body.end_block])
      (Statement.listEntry body.end_block stmts) stack.exit
      (fun heap => Statement.ListEverywhere (LinkedAt arena heap) body stack stmts ∧
        heap.next body.end_block = stack.exit)
  | [], t, σ, σ', stack, pos, _, _, _, _, _, h => by
    cases h
    exact (Linking.replace σ body.end_block stack.exit).imp
      (fun heap hn => ⟨by simp only [Statement.ListEverywhere], hn⟩)
  | stmt :: stmts, t, σ, σ', stack, pos, hs, hp, hw, he, hend, h => by
    simp only [Reowolf.visit_stmts, Except.bind_eq_ok] at h
    obtain ⟨σ₁, h₁, h₂⟩ := h
    simp only [Statement.listNodes, Statement.listOwners] at hp
    simp only [List.flatMap_cons, List.mem_append, or_imp, forall_and] at hw
    simp only [Statement.listEntries_cons, List.append_subset] at he
    simp only [Statement.listIds_cons, List.mem_append, not_or] at hend
    have hd : stmt.ids.Disjoint (Statement.listIds stmts) :=
      (List.nodup_append'.mp (Arena.ids_append .. ▸ hp.nodup)).2.2
    have hd' : (Statement.listIds stmts).Disjoint stmt.ids := List.disjoint_symm hd
    have hapart := hp.apart
    simp only [Arena.ids_append, List.disjoint_append_right] at hapart
    have hp₁ : Placed arena owners (.block body stmts :: stack) σ stmt.nodes (stmt.owners none) :=
      hp.sub (List.sublist_append_left _ _) (List.subset_append_left _ _) hapart.1 (fun _ _ => rfl)
    have L₁ := Linking.visit_stmt stmt ((hs.rest stmts).moved pos) hp₁ rfl hw.1
      (List.Subset.trans he.1 (List.subset_append_left _ _)) (fun _ hl => by cases hl) h₁
    have hp₂ : Placed arena owners (.block body stmts :: stack) σ₁ (Statement.listNodes stmts)
        (Statement.listOwners stmts) :=
      hp.sub (List.sublist_append_right _ _) (List.subset_append_right _ _) hapart.2
        (fun id hi => L₁.visited.labels id (hd' hi))
    have hw₂ : ∀ id ∈ stmts.flatMap Statement.whiles, σ₁.while_in_sync id = stack.in_sync := by
      intro id hi
      rw [L₁.visited.in_sync id (hd' (Statement.whiles_list_subset stmts hi)), hw.2 id hi]
    have L₂ := Linking.visit_stmts stmts ((hs.rest stmts).visited L₁.visited hapart.1) hp₂ hw₂ he.2
      hend.2 h₂
    have hd₂ : stmt.ids.Disjoint (Statement.listIds stmts ++ [body.end_block]) :=
      List.disjoint_append_right.mpr ⟨hd, List.disjoint_singleton.mpr hend.1⟩
    have L := L₁.seq L₂ hd₂ (fun _ _ => ControlStack.exit_block body stack stmts)
    rw [Statement.listIds_cons, List.append_assoc]
    exact L.imp (fun heap hl => ⟨by simp only [Statement.ListEverywhere]; exact ⟨hl.1, hl.2.1⟩, hl.2.2⟩)

theorem Linking.visit_false_body {end_if : StatementId} : (body : Option BlockStatement) →
    ∀ {t : Traversal} {σ σ' : LinkState} {stack : ControlStack}, Situated owners t σ stack →
    Placed arena owners stack σ (BlockOf.optionNodes body) (BlockOf.optionOwners body) →
    stack.owner = none → stack.exit = some end_if → σ.prev_stmt = none →
    visit_false_body ctx t end_if body σ = .ok σ' →
    Linking σ σ' (BlockOf.optionIds body) end_if (some end_if)
      (fun heap => BlockOf.OptionEverywhere (LinkedAt arena heap) stack body) ∧ σ'.prev_stmt = none
  | none, t, σ, σ', stack, _, _, _, _, hprev, h => by
    cases h
    rw [BlockOf.optionIds_none]
    exact ⟨(Linking.nothing hprev end_if _).imp (fun _ _ => by simp only [BlockOf.OptionEverywhere]),
      hprev⟩
  | some body, t, σ, σ', stack, hs, hp, ho, hexit, hprev, h => by
    simp only [Reowolf.visit_false_body, Except.bind_eq_ok] at h
    obtain ⟨σ₁, hbody, he⟩ := h
    cases he
    simp only [BlockOf.optionNodes, BlockOf.optionOwners] at hp
    have L := Linking.visit_block_stmt body hs (ho ▸ hp) hbody
    rw [hexit] at L
    rw [BlockOf.optionIds_some]
    simp only [BlockOf.OptionEverywhere]
    exact ⟨(L.closed (some end_if)).unreached hprev end_if, LinkState.erase_prev⟩

end

end Reowolf
