import Reowolf.Protocol.PromptControl
import Reowolf.Protocol.ScopeVisits

namespace Reowolf

-- The block has the label in front of the statement at the position.
def BlockOf.HasLabel (body : BlockStatement) (identifier : Identifier) (pos : Nat) : Prop :=
  ∃ label ∈ body.labelsAt none, label.label = identifier ∧ label.relative_pos_in_block = pos

-- A local of the block is declared after the first position and before the other one.
def BlockOf.Skips (body : BlockStatement) (pos target : Nat) : Prop :=
  ∃ x ∈ body.declares, pos < x.2 ∧ x.2 < target

-- A block around a place has a label: the block, the position of the statement in it that the place
-- is in, the position of the label, and that of the block in its own parent.
inductive Path.Targets (identifier : Identifier) :
    Path → BlockStatement → Nat → Nat → Nat → Prop
  | here {path : Path} {body : BlockStatement} {pos target : Nat} :
    body.HasLabel identifier target → Targets identifier ((body, pos) :: path) body pos target path.pos
  | outer {path : Path} {x : BlockStatement × Nat} {body : BlockStatement} {pos target parent : Nat} :
    Targets identifier path body pos target parent →
    Targets identifier (x :: path) body pos target parent

-- The jump to the label skips no declaration.
def Path.Jumps (path : Path) (identifier : Identifier) : Prop :=
  ∃ body pos target parent, path.Targets identifier body pos target parent ∧ ¬body.Skips pos target

-- In the block of the label a local that lies in front of the label, and that is declared after one
-- of the positions of the jump and of the block in its parent but not after the other, is followed by
-- a local that is declared after both and still in front of the label.
def Path.PositionsAgree (path : Path) (identifier : Identifier) : Prop :=
  ∀ body pos target parent, path.Targets identifier body pos target parent →
    (∃ x ∈ body.declares, min pos parent < x.2 ∧ x.2 ≤ max pos parent ∧ x.2 < target) →
    body.Skips (max pos parent) target

section

variable {path : Path} {σ : LinkState} {identifier : Identifier} {body : BlockStatement}
variable {pos target parent : Nat}

theorem BlockOf.skips_min (body : BlockStatement) (pos parent target : Nat) :
    body.Skips (min pos parent) target ↔
      (∃ x ∈ body.declares, min pos parent < x.2 ∧ x.2 ≤ max pos parent ∧ x.2 < target) ∨
        body.Skips (max pos parent) target := by
  constructor
  · rintro ⟨x, hx, hlt, hx'⟩
    by_cases hle : x.2 ≤ max pos parent
    case pos => exact .inl ⟨x, hx, hlt, hle, hx'⟩
    case neg => exact .inr ⟨x, hx, Nat.lt_of_not_le hle, hx'⟩
  · rintro (⟨x, hx, hlt, _, hx'⟩ | ⟨x, hx, hlt, hx'⟩)
    · exact ⟨x, hx, hlt, hx'⟩
    · exact ⟨x, hx, by omega, hx'⟩

-- Which of the two positions is compared with matters only for the locals in between.
theorem BlockOf.skips_iff (body : BlockStatement) (pos parent target : Nat) :
    (body.Skips parent target ↔ body.Skips pos target) ↔
      ((∃ x ∈ body.declares, min pos parent < x.2 ∧ x.2 ≤ max pos parent ∧ x.2 < target) →
        body.Skips (max pos parent) target) := by
  have h := body.skips_min pos parent target
  rcases Nat.le_total pos parent with hle | hle
  · rw [Nat.min_eq_left hle, Nat.max_eq_right hle] at *
    rw [h]
    exact ⟨fun h hd => h.mpr (.inl hd), fun h => ⟨.inr, fun hs => hs.elim h id⟩⟩
  · rw [Nat.min_eq_right hle, Nat.max_eq_left hle] at *
    rw [h]
    exact ⟨fun h hd => h.mp (.inl hd), fun h => ⟨fun hs => hs.elim h id, .inr⟩⟩

theorem Statement.listLabelsAt_none (stmts : List Statement) (pos : Nat)
    (in_sync : Option StatementId) :
    (Statement.listLabelsAt pos in_sync stmts).map (fun label =>
      (label.label, label.relative_pos_in_block)) =
      (Statement.listLabelsAt pos none stmts).map fun label =>
        (label.label, label.relative_pos_in_block) := by
  induction stmts generalizing pos
  case nil => rfl
  case cons stmt stmts ih =>
    simp [Statement.listLabelsAt, Statement.labelsAt, ih, Function.comp_def]

theorem BlockOf.hasLabel_iff (in_sync : Option StatementId) :
    body.HasLabel identifier target ↔ ∃ label ∈ body.labelsAt in_sync, label.label = identifier ∧
      label.relative_pos_in_block = target := by
  have h := Statement.listLabelsAt_none body.statements 0 in_sync
  have hmem {labels : List LabeledStatement} : (identifier, target) ∈ labels.map (fun label =>
      (label.label, label.relative_pos_in_block)) ↔
      ∃ label ∈ labels, label.label = identifier ∧ label.relative_pos_in_block = target := by
    simp [Prod.mk.injEq]
  rw [BlockOf.HasLabel, ← hmem, ← hmem, BlockOf.labelsAt, BlockOf.labelsAt, h]

-- The locals that the check compares with are those that the block declares.
theorem Names.Records.skips {names : Names} (h : names.Records body) (pos target : Nat) :
    (∃ id ∈ names.locals body.this, pos < (names.get id).relative_pos_in_block ∧
      (names.get id).relative_pos_in_block < target) ↔ body.Skips pos target := by
  obtain ⟨bound, he, hb⟩ := h.locals
  constructor
  · rintro ⟨id, hi, hlt, hlt'⟩
    rw [he] at hi
    cases List.mem_append.mp hi
    case inl hi =>
      rw [hb id hi] at hlt
      exact absurd hlt (Nat.not_lt_zero _)
    case inr hi =>
      obtain ⟨x, hx, hid⟩ := List.mem_map.mp hi
      subst hid
      rw [h.pos x hx] at hlt hlt'
      exact ⟨x, hx, hlt, hlt'⟩
  · rintro ⟨x, hx, hlt, hlt'⟩
    refine ⟨x.1, he ▸ List.mem_append_right _ (List.mem_map_of_mem hx), ?_⟩
    rw [h.pos x hx]
    exact ⟨hlt, hlt'⟩

theorem Path.Targets.label (h : path.Targets identifier body pos target parent)
    (hl : ∀ x ∈ path, ∃ in_sync, σ.labels x.1.this = x.1.labelsAt in_sync) :
    identifier ∈ (path.flatMap fun x => σ.labels x.1.this).map (·.label) := by
  induction h
  case here path body pos target hh =>
    obtain ⟨in_sync, he⟩ := hl _ (List.mem_cons_self ..)
    obtain ⟨label, hm, hn, _⟩ := (BlockOf.hasLabel_iff in_sync).mp hh
    rw [List.flatMap_cons, List.map_append, he]
    exact List.mem_append_left _ (List.mem_map.mpr ⟨label, hm, hn⟩)
  case outer ih =>
    rw [List.flatMap_cons, List.map_append]
    exact List.mem_append_right _ (ih fun x hx => hl x (List.mem_cons_of_mem _ hx))

-- The label is in one block only, once.
theorem Path.Targets.unique {body' : BlockStatement} {pos' target' parent' : Nat}
    (h : path.Targets identifier body pos target parent)
    (h' : path.Targets identifier body' pos' target' parent')
    (hl : ∀ x ∈ path, ∃ in_sync, σ.labels x.1.this = x.1.labelsAt in_sync)
    (hn : ((path.flatMap fun x => σ.labels x.1.this).map (·.label)).Nodup) :
    body = body' ∧ pos = pos' ∧ target = target' ∧ parent = parent' := by
  induction h
  case here path body pos target hh =>
    rw [List.flatMap_cons, List.map_append, List.nodup_append'] at hn
    obtain ⟨in_sync, he⟩ := hl _ (List.mem_cons_self ..)
    obtain ⟨label, hm, hname, hpos⟩ := (BlockOf.hasLabel_iff in_sync).mp hh
    rw [he] at hn
    cases h'
    case here hh' =>
      obtain ⟨label', hm', hname', hpos'⟩ := (BlockOf.hasLabel_iff in_sync).mp hh'
      have heq := List.inj_on_of_nodup_map hn.1 hm hm' (hname.trans hname'.symm)
      exact ⟨rfl, rfl, by rw [← hpos, ← hpos', heq], rfl⟩
    case outer h' =>
      have hmem := h'.label (σ := σ) fun x hx => hl x (List.mem_cons_of_mem _ hx)
      exact absurd hmem (hn.2.2 (List.mem_map.mpr ⟨label, hm, hname⟩))
  case outer path x body pos target parent h ih =>
    rw [List.flatMap_cons, List.map_append, List.nodup_append'] at hn
    have hl' : ∀ x ∈ path, ∃ in_sync, σ.labels x.1.this = x.1.labelsAt in_sync :=
      fun x hx => hl x (List.mem_cons_of_mem _ hx)
    cases h'
    case here body' pos' hh' =>
      obtain ⟨in_sync, he⟩ := hl _ (List.mem_cons_self ..)
      obtain ⟨label', hm', hname', _⟩ := (BlockOf.hasLabel_iff in_sync).mp hh'
      rw [he] at hn
      exact absurd (h.label hl') (hn.2.2 (List.mem_map.mpr ⟨label', hm', hname'⟩))
    case outer h' => exact ih h' hl' hn.2.1

-- The check finds the label, and compares with the position of the block in its parent.
theorem Path.find_label_iff (hr : ∀ x ∈ path, σ.names.Records x.1)
    (hl : ∀ x ∈ path, ∃ in_sync, σ.labels x.1.this = x.1.labelsAt in_sync)
    (hn : ((path.flatMap fun x => σ.labels x.1.this).map (·.label)).Nodup) :
    (∃ label, find_label σ identifier path.scopes = .ok label) ↔
      ∃ body pos target parent, path.Targets identifier body pos target parent ∧
        ¬body.Skips parent target := by
  induction path
  case nil =>
    constructor
    · rintro ⟨label, h⟩
      cases h
    · rintro ⟨_, _, _, _, h, _⟩
      cases h
  case cons x path ih =>
    obtain ⟨body, pos⟩ := x
    obtain ⟨in_sync, he⟩ := hl _ (List.mem_cons_self ..)
    have hn' := hn
    rw [List.flatMap_cons, List.map_append, List.nodup_append'] at hn'
    have ih := ih (fun x hx => hr x (List.mem_cons_of_mem _ hx))
      (fun x hx => hl x (List.mem_cons_of_mem _ hx)) hn'.2.1
    simp only [Path.scopes, find_label]
    split
    case h_1 hf =>
      rw [ih]
      have hnone : ∀ target, ¬body.HasLabel identifier target := by
        intro target hh
        obtain ⟨label, hm, hname, _⟩ := (BlockOf.hasLabel_iff in_sync).mp hh
        have hno := List.find?_eq_none.mp hf label (he ▸ hm)
        exact hno (by simpa using hname)
      constructor
      · rintro ⟨_, _, _, _, h, hs⟩
        exact ⟨_, _, _, _, .outer h, hs⟩
      · rintro ⟨_, _, target, _, h, hs⟩
        cases h
        case here hh => exact absurd hh (hnone target)
        case outer h => exact ⟨_, _, _, _, h, hs⟩
    case h_2 label hf =>
      have hm := List.mem_of_find?_eq_some hf
      have hname : label.label = identifier := by simpa using List.find?_some hf
      have hh : body.HasLabel identifier label.relative_pos_in_block :=
        (BlockOf.hasLabel_iff in_sync).mpr ⟨label, he ▸ hm, hname, rfl⟩
      have hhere : Path.Targets identifier ((body, pos) :: path) body pos
        label.relative_pos_in_block (Path.pos path) := .here hh
      have hskips := (hr _ (List.mem_cons_self ..)).skips (Path.pos path)
        label.relative_pos_in_block
      split
      case isTrue hs =>
        constructor
        · rintro ⟨_, h⟩
          cases h
        · rintro ⟨_, _, _, _, h, hs'⟩
          obtain ⟨hb, _, ht, hp⟩ := hhere.unique h hl hn
          subst hb ht hp
          exact absurd (hskips.mp hs) hs'
      case isFalse hs =>
        exact ⟨fun _ => ⟨_, _, _, _, hhere, fun hs' => hs (hskips.mpr hs')⟩, fun _ => ⟨label, rfl⟩⟩

end

-- The goto check accepts the jumps that skip no declaration, and no others, exactly where the two
-- positions agree.
theorem goto_check_iff (p : ParsedProcedure) {v : Visit} {this : StatementId}
    {identifier : Identifier} (hr : p.Reaches v) (hw : v.work = .stmt (.goto this identifier)) :
    ((∃ label, find_label v.σ identifier v.t.cur_scope = .ok label) ↔ v.path.Jumps identifier) ↔
      v.path.PositionsAgree identifier := by
  have hi := hr.invariant
  have hs := hi.situated
  simp only [Visit.Situated, hw] at hs
  obtain ⟨_, _, hp, _⟩ := hs
  rw [hi.scopes, Path.find_label_iff hp.records hp.labels hp.unique]
  constructor
  · intro h body pos target parent ht
    rw [← BlockOf.skips_iff]
    have hiff : (¬body.Skips parent target) ↔ ¬body.Skips pos target := by
      constructor
      · intro hs
        obtain ⟨_, _, _, _, ht', hs'⟩ := h.mp ⟨_, _, _, _, ht, hs⟩
        obtain ⟨hb, hpos, htarget, _⟩ := ht'.unique ht hp.labels hp.unique
        subst hb hpos htarget
        exact hs'
      · intro hs
        obtain ⟨_, _, _, _, ht', hs'⟩ := h.mpr ⟨_, _, _, _, ht, hs⟩
        obtain ⟨hb, _, htarget, hparent⟩ := ht'.unique ht hp.labels hp.unique
        subst hb htarget hparent
        exact hs'
    exact not_iff_not.mp hiff
  · intro h
    constructor
    · rintro ⟨body, pos, target, parent, ht, hs⟩
      have hiff := (body.skips_iff pos parent target).mpr (h body pos target parent ht)
      exact ⟨_, _, _, _, ht, fun hs' => hs (hiff.mpr hs')⟩
    · rintro ⟨body, pos, target, parent, ht, hs⟩
      have hiff := (body.skips_iff pos parent target).mpr (h body pos target parent ht)
      exact ⟨_, _, _, _, ht, fun hs' => hs (hiff.mp hs')⟩

-- A primitive component with the given statements and no parameters.
def Definition.primitive_of (statements : List Statement) (end_block : StatementId) : Definition where
  this       := 0
  kind       := .primitive
  parameters := []
  body       := ⟨0, statements, end_block⟩

-- `primitive p() { u32 a; goto end; end: {} }`.
def ParsedProcedure.jumps : ParsedProcedure where
  ctx        := .of_component
  definition := .primitive_of
    [.memory 1 0, .goto 2 "end", .labeled 3 "end" (.block ⟨4, [], 5⟩)] 6
  heap       := .parsed (.parsed [⟨"a", 0, 0⟩])
  fresh      := ⟨by decide, by decide, by decide, by simp [Heap.parsed, Names.parsed]⟩
  labels     := by simp [Heap.parsed]
  nodup      := by decide
  allocated  := by decide

theorem goto_check_jumps : ∃ v : Visit, ParsedProcedure.jumps.Reaches v ∧
    v.work = .stmt (.goto 2 "end") ∧
    ((∃ label, find_label v.σ "end" v.t.cur_scope = .ok label) ↔ v.path.Jumps "end") := by
  have he : ParsedProcedure.jumps.definition.body.statements = [.memory 1 0] ++ .goto 2 "end" :: _ := rfl
  have hr : ParsedProcedure.jumps.Reaches _ := .single (.stmt he rfl rfl)
  refine ⟨_, hr, rfl, (goto_check_iff _ hr rfl).mpr ?_⟩
  intro body pos target parent ht hd
  cases ht
  case outer h => cases h
  case here h =>
    obtain ⟨x, hx, hlt, hle, _⟩ := hd
    cases List.mem_singleton.mp hx
    exact absurd hlt (Nat.not_lt_zero _)

-- `primitive p() { u32 a; u32 b; goto end; end: {} }`.
def ParsedProcedure.jumps_late : ParsedProcedure where
  ctx        := .of_component
  definition := .primitive_of
    [.memory 1 0, .memory 2 1, .goto 3 "end", .labeled 4 "end" (.block ⟨5, [], 6⟩)] 7
  heap       := .parsed (.parsed [⟨"a", 0, 0⟩, ⟨"b", 0, 0⟩])
  fresh      := ⟨by decide, by decide, by decide, by simp [Heap.parsed, Names.parsed]⟩
  labels     := by simp [Heap.parsed]
  nodup      := by decide
  allocated  := by decide

-- The jump skips no declaration, but is not accepted.
theorem goto_check_rejects : ∃ v : Visit, ParsedProcedure.jumps_late.Reaches v ∧
    v.work = .stmt (.goto 3 "end") ∧ v.path.Jumps "end" ∧
    ¬∃ label, find_label v.σ "end" v.t.cur_scope = .ok label := by
  have he : ParsedProcedure.jumps_late.definition.body.statements =
    [.memory 1 0, .memory 2 1] ++ .goto 3 "end" :: _ := rfl
  refine ⟨_, .single (.stmt he rfl rfl), rfl,
    ⟨_, 2, 3, 0, .here ⟨_, List.mem_singleton_self _, rfl, rfl⟩, ?_⟩, ?_⟩
  · rintro ⟨x, hx, hlt, _⟩
    have hx : x ∈ [(0, 0), (1, 1)] := hx
    simp only [List.mem_cons, List.not_mem_nil, or_false] at hx
    rcases hx with rfl | rfl <;> exact absurd hlt (by decide)
  · rintro ⟨label, h⟩
    cases h

end Reowolf
