import Reowolf.Protocol.GotoCheck

namespace Reowolf

-- Blocks with positions in them.
def Path.places (path : Path) : List (StatementId × Nat) := path.map fun x => (x.1.this, x.2)

-- A local of one of the blocks, not declared after the position in it, has the name.
def Names.Clashes (names : Names) (places : List (StatementId × Nat)) (identifier : Identifier) :
    Prop :=
  ∃ place ∈ places, ∃ other ∈ names.locals place.1,
    (names.get other).relative_pos_in_block ≤ place.2 ∧ (names.get other).identifier = identifier

-- A variable with the name is visible.
def Names.Sees (names : Names) (parameters : List VariableId) (places : List (StatementId × Nat))
    (identifier : Identifier) : Prop :=
  (∃ parameter ∈ parameters, (names.get parameter).identifier = identifier) ∨
    names.Clashes places identifier

-- The positions that the walk over the enclosing blocks compares with: for a block that of its
-- parent in the block around that, and nothing for the outermost block.
def Path.compared : Path → List (StatementId × Nat)
  | (body, _) :: (parent, pos) :: path => (body.this, Path.pos path) :: compared ((parent, pos) :: path)
  | _ => []

-- A variable expression in a binding expression, where a variable may be bound that goes to the block.
structure Traversal.BindsIn (t : Traversal) (block : StatementId) : Prop where
  binding : t.in_binding_expr.isSome
  lhs     : t.in_binding_expr_lhs
  parent  : is_valid_binding t.expr_parent
  test    : t.in_test_expr = some block

section

variable {names : Names} {parameters : List VariableId} {identifier : Identifier} {path : Path}
variable {places places' : List (StatementId × Nat)} {id : VariableId} {ctx : LinkCtx}

@[simp]
theorem Names.clashes_nil : ¬names.Clashes [] identifier := by
  rintro ⟨_, h, _⟩
  cases h

theorem Names.clashes_append :
    names.Clashes (places ++ places') identifier ↔
      names.Clashes places identifier ∨ names.Clashes places' identifier := by
  simp only [Names.Clashes, List.mem_append, or_and_right, exists_or]

theorem Names.clashes_cons {place : StatementId × Nat} :
    names.Clashes (place :: places) identifier ↔
      names.Clashes [place] identifier ∨ names.Clashes places identifier := by
  rw [← List.singleton_append, Names.clashes_append]

-- A variable that is not yet in the blocks conflicts with the locals that have its name.
theorem Names.conflicts_iff {block : StatementId} (pos : Nat) (h : id ∉ names.locals block) :
    names.conflicts block pos id ↔ names.Clashes [(block, pos)] (names.get id).identifier := by
  simp only [Names.conflicts, Names.Clashes, List.mem_singleton, exists_eq_left]
  constructor
  · rintro ⟨other, ho, _, hp, hi⟩
    exact ⟨other, ho, hp, hi.symm⟩
  · rintro ⟨other, ho, hp, hi⟩
    exact ⟨other, ho, fun he => h (he ▸ ho), hp, hi.symm⟩

theorem Names.check_scopes_iff (parameters : List VariableId) (hp : path ≠ []) (h : ∀ x ∈ path, id ∉ names.locals x.1.this) :
    names.check_scopes parameters id path.scopes = .ok () ↔
      ¬names.Sees parameters path.compared (names.get id).identifier := by
  induction path
  case nil => exact absurd rfl hp
  case cons x path ih =>
    cases path
    case nil =>
      simp only [Path.scopes, Names.check_scopes, Names.Sees, Path.compared, Names.clashes_nil, or_false]
      split
      case isTrue hs =>
        obtain ⟨parameter, hm, he⟩ := hs
        simp only [reduceCtorEq, false_iff, not_not]
        exact ⟨parameter, hm, he.symm⟩
      case isFalse hs =>
        simp only [true_iff]
        rintro ⟨parameter, hm, he⟩
        exact hs ⟨parameter, hm, he.symm⟩
    case cons y path =>
      have ih := ih (List.cons_ne_nil _ _) fun x hx => h x (List.mem_cons_of_mem _ hx)
      have hc := Names.conflicts_iff (Path.pos path) (h x (List.mem_cons_self ..))
      simp only [Path.scopes] at ih ⊢
      simp only [Names.check_scopes, Path.compared]
      split
      case isTrue hs =>
        simp only [reduceCtorEq, false_iff, not_not]
        exact .inr (Names.clashes_cons.mpr (.inl (hc.mp hs)))
      case isFalse hs =>
        have hno : ¬names.Clashes [(x.1.this, Path.pos path)] (names.get id).identifier :=
          fun h => hs (hc.mpr h)
        rw [ih, Names.Sees, Names.Sees, Names.clashes_cons]
        simp only [hno, false_or]

-- Looking for a variable.
theorem Names.find_variable_iff (path : Path) :
    names.find_variable parameters identifier path.scopes path.pos = none ↔
      ¬names.Sees parameters path.places identifier := by
  induction path
  case nil => simp [Path.scopes, Names.find_variable, Names.Sees, Path.places]
  case cons x path ih =>
    simp only [Path.scopes, Names.find_variable, Names.Sees, Path.places, List.map_cons]
    rw [Names.clashes_cons]
    split
    case h_1 other hf =>
      have hm := List.mem_of_find?_eq_some hf
      have hp := List.find?_some hf
      simp only [decide_eq_true_eq] at hp
      simp only [reduceCtorEq, false_iff, not_not]
      exact .inr (.inl ⟨_, List.mem_singleton_self _, other, hm, hp.1, hp.2.symm⟩)
    case h_2 hf =>
      have hno : ¬names.Clashes [(x.1.this, x.2)] identifier := by
        rintro ⟨place, hplace, other, ho, hp, hi⟩
        cases List.mem_singleton.mp hplace
        have := List.find?_eq_none.mp hf other ho
        simp only [decide_eq_true_eq] at this
        exact this ⟨hp, hi.symm⟩
      rw [ih, Names.Sees, Path.places]
      simp only [hno, false_or]

-- A declared variable is added where nothing stands in the way, but the enclosing blocks are looked at
-- up to other positions.
theorem add_local_to_state_iff (ctx : LinkCtx) {σ : LinkState} {t : Traversal} (hs : path.Scanning σ.names [id])
    (ht : t.cur_scope = path.scopes) :
    (∃ σ', add_local_to_state ctx t path.pos id σ = .ok σ') ↔
      ctx.has_symbol t.definition.this (σ.names.get id).identifier = false ∧
      ¬(σ.names.Sees t.definition.parameters (path.places.take 1) (σ.names.get id).identifier ∨
        σ.names.Clashes (Path.compared path.tail) (σ.names.get id).identifier) := by
  match path with
  | [] => exact absurd rfl hs.inside
  | (body, pos) :: path =>
    have ha : ∀ x ∈ (body, pos) :: path, id ∉ σ.names.locals x.1.this :=
      hs.apart id (List.mem_singleton_self _)
    have hscopes := Names.check_scopes_iff t.definition.parameters
      (List.cons_ne_nil _ _) ha
    have hown := Names.conflicts_iff pos (ha _ (List.mem_cons_self ..))
    -- The walk also looks at the block itself, where the last check finds everything anyway.
    have hcompared : σ.names.Clashes (Path.compared ((body, pos) :: path)) (σ.names.get id).identifier →
        σ.names.Clashes [(body.this, pos)] (σ.names.get id).identifier ∨
          σ.names.Clashes (Path.compared path) (σ.names.get id).identifier := by
      cases path
      case nil => exact fun h => absurd h Names.clashes_nil
      case cons y path =>
        intro h
        apply (Names.clashes_cons.mp h).imp_left
        rintro ⟨place, hp, other, ho, _, hi⟩
        cases List.mem_singleton.mp hp
        exact ⟨_, List.mem_singleton_self _, other, ho, hs.before _ rfl other ho, hi⟩
    have htail : σ.names.Clashes (Path.compared path) (σ.names.get id).identifier →
        σ.names.Clashes (Path.compared ((body, pos) :: path)) (σ.names.get id).identifier := by
      cases path
      case nil => exact fun h => h
      case cons y path => exact fun h => Names.clashes_cons.mpr (.inr h)
    have hpos : Path.pos ((body, pos) :: path) = pos := rfl
    simp only [hpos, add_local_to_state, Except.bind_eq_ok, checked_add_local_eq ht,
      checked_at_single_scope_add_local_eq, List.tail_cons, Path.places, List.map_cons,
      List.take_succ_cons, List.take_zero]
    have hscopes : σ.names.check_scopes t.definition.parameters id
        (⟨body.this, Path.pos path⟩ :: Path.scopes path) = .ok () ↔ _ := hscopes
    rw [hown, hscopes]
    simp only [Names.Sees]
    constructor
    · rintro ⟨_, _, ⟨hc, hsym, ho, _⟩, _⟩
      refine ⟨hsym, ?_⟩
      rintro ((h | h) | h)
      · exact hc (.inl h)
      · exact ho h
      · exact hc (.inr (htail h))
    · rintro ⟨hsym, hno⟩
      refine ⟨_, _, ⟨?_, hsym, fun h => hno (.inl (.inr h)), rfl⟩, rfl⟩
      rintro (h | h)
      · exact hno (.inl (.inl h))
      · exact (hcompared h).elim (fun h => hno (.inl (.inr h))) fun h => hno (.inr h)

-- A binding variable is added where nothing stands in the way.
theorem visit_variable_expr_iff (ctx : LinkCtx) (this : ExpressionId) (identifier : Identifier)
    {t : Traversal} {block : StatementId}
    (hb : t.BindsIn block) (ht : t.cur_scope = path.scopes) (hp : t.relative_pos_in_block = path.pos)
    (hl : ∀ other ∈ names.locals block, other < names.arena.length) :
    (∃ names', visit_variable_expr ctx t this identifier names = .ok names' ∧
      names'.locals block = names.locals block ++ [names.arena.length]) ↔
      ctx.has_symbol t.definition.this identifier = false ∧
      ¬names.Sees t.definition.parameters ((block, 0) :: path.places) identifier := by
  have hsees : names.Sees t.definition.parameters ((block, 0) :: path.places) identifier ↔
      names.Sees t.definition.parameters path.places identifier ∨
        names.Clashes [(block, 0)] identifier := by
    rw [Names.Sees, Names.Sees, Names.clashes_cons, or_comm (b := names.Clashes path.places _), or_assoc]
  have hget : (names.alloc_variable identifier).2.get (names.alloc_variable identifier).1 =
      ⟨identifier, 0, 0⟩ := by
    simp [Names.get, Names.alloc_variable]
  have hothers : ∀ other ∈ names.locals block,
      (names.alloc_variable identifier).2.get other = names.get other := by
    intro other ho
    simp only [Names.get, Names.alloc_variable, List.getD_eq_getElem?_getD,
      List.getElem?_append_left (hl other ho)]
  have hconflicts : (names.alloc_variable identifier).2.conflicts block 0
      (names.alloc_variable identifier).1 ↔ names.Clashes [(block, 0)] identifier := by
    simp only [Names.conflicts, Names.Clashes, List.mem_singleton, exists_eq_left, hget]
    constructor
    · rintro ⟨other, ho, _, hpos, hi⟩
      rw [hothers other ho] at hpos hi
      exact ⟨other, ho, hpos, hi.symm⟩
    · rintro ⟨other, ho, hpos, hi⟩
      have hne : (names.alloc_variable identifier).1 ≠ other := fun he => by
        have := hl other ho
        rw [← he] at this
        exact absurd this (Nat.lt_irrefl _)
      refine ⟨other, ho, hne, ?_⟩
      rw [hothers other ho]
      exact ⟨hpos, hi.symm⟩
  have hf : names.find_variable t.definition.parameters identifier t.cur_scope t.relative_pos_in_block =
      none ↔ _ := ht ▸ hp ▸ Names.find_variable_iff path
  rw [hsees, not_or, ← hf, ← hconflicts]
  simp only [visit_variable_expr]
  cases hfind : names.find_variable t.definition.parameters identifier t.cur_scope
    t.relative_pos_in_block
  case some id =>
    simp only [reduceCtorEq, false_and, and_false, iff_false]
    rintro ⟨names', h, hlocals⟩
    cases h
    have := congrArg List.length hlocals
    simp [Names.number, Names.set_declaration] at this
  case none =>
    have hbind : ¬(t.in_binding_expr.isNone ∨ ¬t.in_binding_expr_lhs) := by
      simp only [hb.lhs, not_true, or_false, ← Option.not_isSome, hb.binding]
      simp
    simp only [if_neg hbind, hb.parent, not_true, if_false, hb.test, true_and, Except.bind_eq_ok,
      checked_at_single_scope_add_local_eq, hget]
    constructor
    · rintro ⟨_, ⟨_, ⟨hs, hc, _⟩, _⟩, _⟩
      exact ⟨hs, hc⟩
    · rintro ⟨hs, hc⟩
      refine ⟨_, ⟨_, ⟨hs, hc, rfl⟩, rfl⟩, ?_⟩
      simp [Names.number, Names.set_declaration, Names.add_local_locals, Names.alloc_variable]

end

-- A binding variable can be added when its name is no symbol and no visible variable has it. For a
-- declared variable this is so unless the locals of the enclosing blocks that are compared with differ
-- from those that are visible, and nothing else stands in the way.
theorem shadowing_check (p : ParsedProcedure) {v : Visit} (hr : p.Reaches v) :
    (∀ id, v.work = .add id →
      let names := v.σ.names
      let name  := (names.get id).identifier
      ((∃ σ', add_local_to_state p.ctx v.t v.path.pos id v.σ = .ok σ') ↔
        p.ctx.has_symbol p.definition.this name = false ∧
          ¬names.Sees p.definition.parameters v.path.places name) ↔
      p.ctx.has_symbol p.definition.this name = true ∨
        names.Sees p.definition.parameters (v.path.places.take 1) name ∨
        (names.Clashes (Path.places v.path.tail) name ↔
          names.Clashes (Path.compared v.path.tail) name)) ∧
    (∀ this identifier block, v.work = .expr (.variable this identifier) → v.t.BindsIn block →
      ((∃ names', visit_variable_expr p.ctx v.t this identifier v.σ.names = .ok names' ∧
          names'.locals block = v.σ.names.locals block ++ [v.σ.names.arena.length]) ↔
        p.ctx.has_symbol p.definition.this identifier = false ∧
          ¬v.σ.names.Sees p.definition.parameters ((block, 0) :: v.path.places) identifier)) := by
  have hi := hr.invariant
  have hs := hi.situated
  constructor
  · intro id hw names name
    simp only [Visit.Situated, hw] at hs
    have hadd := add_local_to_state_iff p.ctx hs hi.scopes
    rw [hi.definition] at hadd
    have hsplit : names.Sees p.definition.parameters v.path.places name ↔
        names.Sees p.definition.parameters (v.path.places.take 1) name ∨
          names.Clashes (Path.places v.path.tail) name := by
      have hplaces : v.path.places = v.path.places.take 1 ++ Path.places v.path.tail := by
        rw [Path.places, Path.places, List.map_tail, ← List.drop_one, List.take_append_drop]
      rw [hplaces, Names.Sees, Names.clashes_append, ← or_assoc, ← hplaces]
      rfl
    rw [hadd, hsplit]
    by_cases hsymbol : p.ctx.has_symbol p.definition.this name
    case pos => simp [hsymbol, name, names]
    case neg =>
      have hsymbol : p.ctx.has_symbol p.definition.this name = false := by simpa using hsymbol
      by_cases hsees : names.Sees p.definition.parameters (v.path.places.take 1) name
      case pos => simp [hsymbol, hsees, name, names]
      case neg => simp [hsymbol, hsees, name, names, not_iff_not, iff_comm]
  · intro this identifier block hw hb
    simp only [Visit.Situated, hw] at hs
    have h := visit_variable_expr_iff p.ctx this identifier hb hi.scopes
      hs.1 (hs.2 block hb.test)
    rwa [hi.definition] at h

-- `primitive p() { u32 a; { u32 b; } }`.
def ParsedProcedure.nests : ParsedProcedure where
  ctx        := .of_component
  definition := .primitive_of [.memory 1 0, .block ⟨2, [.memory 3 1], 4⟩] 5
  heap       := .parsed (.parsed [⟨"a", 0, 0⟩, ⟨"b", 0, 0⟩])
  fresh      := ⟨by decide, by decide, by decide, by simp [Heap.parsed, Names.parsed]⟩
  labels     := by simp [Heap.parsed]
  nodup      := by decide
  allocated  := by decide

theorem shadowing_check_nests : ∃ v : Visit, ParsedProcedure.nests.Reaches v ∧ v.work = .add 0 ∧
    (∃ σ', add_local_to_state .of_component v.t v.path.pos 0 v.σ = .ok σ') := by
  have he : ParsedProcedure.nests.definition.body.statements = [] ++ .memory 1 0 :: _ := rfl
  have hr : ParsedProcedure.nests.Reaches _ := .tail (.single (.scanned he rfl)) .memory
  refine ⟨_, hr, rfl, ?_⟩
  have h := (shadowing_check _ hr).1 0 rfl
  refine (h.mpr (.inr (.inr (iff_of_false Names.clashes_nil Names.clashes_nil)))).mpr ⟨rfl, ?_⟩
  rintro (⟨_, hm, _⟩ | ⟨place, hm, other, ho, _⟩)
  · cases hm
  · cases List.mem_singleton.mp hm
    cases ho

-- `primitive p() { u32 a; { u32 a; } }`.
def ParsedProcedure.shadows : ParsedProcedure where
  ctx        := .of_component
  definition := .primitive_of [.memory 1 0, .block ⟨2, [.memory 3 1], 4⟩] 5
  heap       := .parsed (.parsed [⟨"a", 0, 0⟩, ⟨"a", 0, 0⟩])
  fresh      := ⟨by decide, by decide, by decide, by simp [Heap.parsed, Names.parsed]⟩
  labels     := by simp [Heap.parsed]
  nodup      := by decide
  allocated  := by decide

-- `primitive p() { u32 a; }`, where `a` is a symbol.
def ParsedProcedure.names_symbol : ParsedProcedure where
  ctx        := { LinkCtx.of_component with has_symbol := fun _ identifier => identifier = "a" }
  definition := .primitive_of [.memory 1 0] 2
  heap       := .parsed (.parsed [⟨"a", 0, 0⟩])
  fresh      := ⟨by decide, by decide, by decide, by simp [Heap.parsed, Names.parsed]⟩
  labels     := by simp [Heap.parsed]
  nodup      := by decide
  allocated  := by decide

-- A variable with the name of a symbol is not added although none with its name is visible, and the
-- variable of a nested block is although one is visible.
theorem shadowing_check_differs :
    (∃ v : Visit, ParsedProcedure.names_symbol.Reaches v ∧ v.work = .add 0 ∧
      ¬v.σ.names.Sees [] v.path.places "a" ∧
      ¬∃ σ', add_local_to_state ParsedProcedure.names_symbol.ctx v.t v.path.pos 0 v.σ = .ok σ') ∧
    ∃ v : Visit, ParsedProcedure.shadows.Reaches v ∧ v.work = .add 1 ∧
      v.σ.names.Sees [] v.path.places "a" ∧
      ∃ σ', add_local_to_state ParsedProcedure.shadows.ctx v.t v.path.pos 1 v.σ = .ok σ' := by
  constructor
  · have he : ParsedProcedure.names_symbol.definition.body.statements = [] ++ .memory 1 0 :: _ := rfl
    refine ⟨_, .tail (.single (.scanned he rfl)) .memory, rfl, ?_, ?_⟩
    · rintro (⟨_, hm, _⟩ | ⟨place, hm, other, ho, _⟩)
      · cases hm
      · cases List.mem_singleton.mp hm
        cases ho
    · rintro ⟨σ', h⟩
      cases h
  · have he : ParsedProcedure.shadows.definition.body.statements =
      [.memory 1 0] ++ .block ⟨2, [.memory 3 1], 4⟩ :: _ := rfl
    have hinner : (BlockOf.mk 2 [Statement.memory 3 1] 4).statements = [] ++ .memory 3 1 :: _ := rfl
    refine ⟨_, .tail (.tail (.tail (.single (.stmt he rfl rfl)) .block) (.scanned hinner rfl)) .memory,
      rfl, ?_, _, rfl⟩
    exact .inr ⟨(0, 1), .tail _ (List.mem_singleton_self _), 0, List.mem_singleton_self _, by decide,
      rfl⟩

end Reowolf
