import Reowolf.Protocol.Control

namespace Reowolf

variable (P : ControlStack → Statement → Prop)

mutual

-- A property of every statement in a statement, each with the stack that control has there.
def Statement.Everywhere : ControlStack → Option Identifier → Statement → Prop
  | stack, _, .block body => BlockOf.Everywhere stack body
  | stack, _, .labeled this label body =>
    P stack (.labeled this label body) ∧ Statement.Everywhere stack (some label) body
  | stack, _, .if this test true_body false_body end_if =>
    let stack' := .branch this test true_body false_body end_if :: stack
    P stack (.if this test true_body false_body end_if) ∧ BlockOf.Everywhere stack' true_body ∧
      BlockOf.OptionEverywhere stack' false_body
  | stack, label, .while this test body end_while =>
    P stack (.while this test body end_while) ∧
      BlockOf.Everywhere (.loop label this test body end_while :: stack) body
  | stack, _, .synchronous this body end_sync =>
    P stack (.synchronous this body end_sync) ∧
      BlockOf.Everywhere (.sync this body end_sync :: stack) body
  | stack, _, stmt => P stack stmt

def BlockOf.Everywhere : ControlStack → BlockStatement → Prop
  | stack, ⟨this, statements, end_block⟩ =>
    P stack (.block ⟨this, statements, end_block⟩) ∧
      Statement.ListEverywhere ⟨this, statements, end_block⟩ stack statements

def Statement.ListEverywhere (body : BlockStatement) (stack : ControlStack) : List Statement → Prop
  | [] => True
  | stmt :: stmts =>
    Statement.Everywhere (.block body stmts :: stack) none stmt ∧
      Statement.ListEverywhere body stack stmts

def BlockOf.OptionEverywhere (stack : ControlStack) : Option BlockStatement → Prop
  | none => True
  | some body => BlockOf.Everywhere stack body

end

-- The same of the statements that a stack stands for.
def ControlStack.Everywhere : ControlStack → Prop
  | [] => True
  | .block body rest :: stack =>
    BlockOf.Everywhere P stack body ∧ rest <:+ body.statements ∧ Everywhere stack
  | .branch this test true_body false_body end_if :: stack =>
    P stack (.if this test true_body false_body end_if) ∧ Everywhere stack
  | .loop label this test body end_while :: stack =>
    Statement.Everywhere P stack label (.while this test body end_while) ∧ Everywhere stack
  | .sync this body end_sync :: stack =>
    P stack (.synchronous this body end_sync) ∧ Everywhere stack

def ControlPoint.Everywhere (stack : ControlStack) (point : ControlPoint) : Prop :=
  match point with
  | .stmt label body => Statement.Everywhere P stack label body
  | .endBlock body   => P stack (.block body)
  | .endIf end_if    => ∃ this test true_body false_body,
      P stack (.if this test true_body false_body end_if)
  | .endWhile end_while => ∃ this test body, P stack (.while this test body end_while)
  | .endSync end_sync   => ∃ this body, P stack (.synchronous this body end_sync)

def Control.Everywhere (control : Control) : Prop :=
  control.1.Everywhere P control.2 ∧ control.2.Everywhere P

variable {P} {stack : ControlStack} {control : Control}

theorem BlockOf.Everywhere.here : {body : BlockStatement} → body.Everywhere P stack →
    P stack (.block body)
  | ⟨_, _, _⟩, h => by
    simp only [BlockOf.Everywhere] at h
    exact h.1

theorem BlockOf.Everywhere.statements : {body : BlockStatement} → body.Everywhere P stack →
    Statement.ListEverywhere P body stack body.statements
  | ⟨_, _, _⟩, h => by
    simp only [BlockOf.Everywhere] at h
    exact h.2

theorem Statement.Everywhere.here {stmt : Statement} {label : Option Identifier}
    (h : stmt.Everywhere P stack label) : P stack stmt := by
  cases stmt
  case block body => exact BlockOf.Everywhere.here (by simpa only [Statement.Everywhere] using h)
  case labeled | «if» | «while» | synchronous => simp only [Statement.Everywhere] at h; exact h.1
  all_goals simpa only [Statement.Everywhere] using h

theorem Statement.Everywhere.enter : {stmt : Statement} → {label : Option Identifier} →
    stmt.Everywhere P stack label → (ControlPoint.enter label stmt).Everywhere P stack
  | .labeled .., _, h => by
    simp only [Statement.Everywhere] at h
    exact (Statement.Everywhere.enter h.2 :)
  | .block _, _, h | .memory .., _, h | .channel .., _, h | .if .., _, h | .while .., _, h
  | .break .., _, h | .continue .., _, h | .synchronous .., _, h | .return .., _, h
  | .goto .., _, h | .new .., _, h | .expression .., _, h => h

theorem Statement.ListEverywhere.of_suffix {body : BlockStatement} {stmt : Statement}
    {stmts rest : List Statement} (h : Statement.ListEverywhere P body stack stmts)
    (hs : stmt :: rest <:+ stmts) : stmt.Everywhere P (.block body rest :: stack) none := by
  induction stmts
  case nil => cases List.suffix_nil.mp hs
  case cons stmt' stmts ih =>
    simp only [Statement.ListEverywhere] at h
    cases List.suffix_cons_iff.mp hs
    case inl hs =>
      cases hs
      exact h.1
    case inr hs => exact ih h.2 hs

theorem ControlStack.Everywhere.after {next : Control} (h : stack.Everywhere P)
    (ha : stack.after = some next) : next.Everywhere P := by
  match stack with
  | [] => cases ha
  | .block body (stmt :: rest) :: stack =>
    cases ha
    obtain ⟨hb, hs, ht⟩ := h
    exact ⟨(hb.statements.of_suffix hs).enter, hb, (List.suffix_cons _ _).trans hs, ht⟩
  | .block body [] :: stack =>
    cases ha
    exact ⟨h.1.here, h.2.2⟩
  | .branch .. :: stack =>
    cases ha
    exact ⟨⟨_, _, _, _, h.1⟩, h.2⟩
  | .loop .. :: stack =>
    cases ha
    exact h
  | .sync .. :: stack =>
    cases ha
    exact ⟨⟨_, _, h.1⟩, h.2⟩

theorem Control.Everywhere.first {body : BlockStatement} {next : Control}
    (hb : body.Everywhere P stack) (h : stack.Everywhere P) (hf : first body stack = some next) :
    next.Everywhere P := by
  have hs : ControlStack.Everywhere P (.block body body.statements :: stack) :=
    ⟨hb, List.suffix_rfl, h⟩
  exact hs.after hf

theorem ControlStack.Everywhere.find_loop {target label : Option Identifier} {stmt end_while}
    {outer : ControlStack} (h : stack.Everywhere P)
    (hf : stack.find_loop target = some (label, stmt, end_while, outer)) :
    (∃ this test body, stmt = .while this test body end_while) ∧
      stmt.Everywhere P outer label ∧ outer.Everywhere P := by
  induction stack
  case nil => cases hf
  case cons frame stack ih =>
    cases frame
    case loop label' this test body end_while' =>
      simp only [ControlStack.find_loop] at hf
      split at hf
      · cases hf
        exact ⟨⟨_, _, _, rfl⟩, h⟩
      · exact ih h.2 hf
    case block => exact ih h.2.2 hf
    case branch | sync => exact ih h.2 hf

theorem Statement.Everywhere.labels {entry : StatementId × Identifier × Statement} :
    {stmt : Statement} → {label : Option Identifier} → stmt.Everywhere P stack label →
    entry ∈ stmt.labels → ∀ label',
    (Statement.labeled entry.1 entry.2.1 entry.2.2).Everywhere P stack label'
  | .labeled this label body, _, h, hm, label' => by
    simp only [Statement.Everywhere] at h
    cases List.mem_cons.mp hm
    case inl hm =>
      subst hm
      simpa only [Statement.Everywhere] using h
    case inr hm => exact Statement.Everywhere.labels h.2 hm label'

theorem Statement.ListEverywhere.labels {body : BlockStatement} {stmts rest : List Statement}
    {entry : StatementId × Identifier × Statement}
    (h : Statement.ListEverywhere P body stack stmts) (hs : stmts <:+ body.statements)
    (hm : (entry, rest) ∈ Statement.listLabels stmts) :
    (Statement.labeled entry.1 entry.2.1 entry.2.2).Everywhere P (.block body rest :: stack) none ∧
      rest <:+ body.statements := by
  induction stmts
  case nil => cases hm
  case cons stmt stmts ih =>
    simp only [Statement.ListEverywhere] at h
    simp only [Statement.listLabels, List.mem_append, List.mem_map] at hm
    have hs' : stmts <:+ body.statements := (List.suffix_cons _ _).trans hs
    cases hm
    case inl hm =>
      obtain ⟨_, hl, he⟩ := hm
      cases he
      exact ⟨h.1.labels hl none, hs'⟩
    case inr hm => exact ih h.2 hs' hm

theorem ControlStack.Everywhere.find_label {label : Identifier} {next : Control}
    (h : stack.Everywhere P) (hf : stack.find_label label = some next) : next.Everywhere P := by
  induction stack
  case nil => cases hf
  case cons frame stack ih =>
    cases frame
    case block body rest =>
      simp only [ControlStack.find_label] at hf
      split at hf
      case h_1 he =>
        cases hf
        obtain ⟨hl, hr⟩ := h.1.statements.labels List.suffix_rfl (List.mem_of_find?_eq_some he)
        exact ⟨hl, h.1, hr, h.2.2⟩
      case h_2 => exact ih h.2.2 hf
    case branch | loop | sync => exact ih h.2 hf

-- What holds everywhere in a statement keeps holding wherever control goes.
theorem Control.Everywhere.next {next : Control} {outcome : Bool} (h : control.Everywhere P)
    (hn : control.next outcome = some next) : next.Everywhere P := by
  obtain ⟨point, stack⟩ := control
  obtain ⟨hp, hs⟩ := h
  cases point
  case endBlock | endIf | endWhile | endSync => exact hs.after hn
  case stmt label stmt =>
    simp only [Control.next] at hn
    cases stmt
    case memory | channel | new | expression => exact hs.after hn
    case block body => exact .first (by simpa only [ControlPoint.Everywhere, Statement.Everywhere] using hp) hs hn
    case labeled this label' body =>
      cases hn
      simp only [ControlPoint.Everywhere, Statement.Everywhere] at hp
      exact ⟨hp.2, hs⟩
    case «if» this test true_body false_body end_if =>
      simp only [ControlPoint.Everywhere, Statement.Everywhere] at hp
      obtain ⟨hi, ht, hf⟩ := hp
      cases outcome <;> cases false_body <;> cases hn
      case false.none => exact ⟨⟨_, _, _, _, hi⟩, hs⟩
      case false.some =>
        simp only [BlockOf.OptionEverywhere] at hf
        exact ⟨by simpa only [ControlPoint.Everywhere, Statement.Everywhere] using hf, hi, hs⟩
      all_goals exact ⟨by simpa only [ControlPoint.Everywhere, Statement.Everywhere] using ht, hi, hs⟩
    case «while» this test body end_while =>
      have hw := hp
      simp only [ControlPoint.Everywhere, Statement.Everywhere] at hp
      cases outcome <;> cases hn
      case false => exact ⟨⟨_, _, _, hp.1⟩, hs⟩
      case true => exact ⟨by simpa only [ControlPoint.Everywhere, Statement.Everywhere] using hp.2, hw, hs⟩
    case synchronous this body end_sync =>
      simp only [ControlPoint.Everywhere, Statement.Everywhere] at hp
      cases hn
      exact ⟨by simpa only [ControlPoint.Everywhere, Statement.Everywhere] using hp.2, hp.1, hs⟩
    case «break» this target =>
      simp only [Option.map_eq_some_iff] at hn
      obtain ⟨⟨label', stmt, end_while, outer⟩, hf, hn⟩ := hn
      cases hn
      obtain ⟨⟨_, _, _, he⟩, hw, ho⟩ := hs.find_loop hf
      exact ⟨⟨_, _, _, he ▸ hw.here⟩, ho⟩
    case «continue» this target =>
      simp only [Option.map_eq_some_iff] at hn
      obtain ⟨⟨label', stmt, end_while, outer⟩, hf, hn⟩ := hn
      cases hn
      exact (hs.find_loop hf).2
    case goto this label' => exact hs.find_label hn
    case «return» => cases hn

theorem Control.Everywhere.start {body : BlockStatement} (h : body.Everywhere P []) :
    (Control.start body).Everywhere P :=
  ⟨by simpa only [ControlPoint.Everywhere, Statement.Everywhere, Control.start] using h, trivial⟩

-- The statement that control goes to after the current one.
def ControlStack.exit (stack : ControlStack) : Option StatementId :=
  stack.after.map Control.visit

-- The synchronous statement that we are in.
def ControlStack.in_sync : ControlStack → Option StatementId
  | [] => none
  | .sync this _ _ :: _ => some this
  | _ :: stack => in_sync stack

-- The arena has the statement and its links are those of the structured meaning. Jumps stay in the
-- synchronous statement that they are in.
def LinkedAt (arena : Arena) (heap : Heap) (stack : ControlStack) (stmt : Statement) : Prop :=
  arena.get stmt.this = some (.statement stmt) ∧
  match stmt with
  | .block body =>
    arena.get body.end_block = some (.endBlock body.this) ∧
    heap.next body.this = (Control.first body stack).map Control.visit ∧
    heap.next body.end_block = stack.exit
  | .memory this _ | .channel this _ _ | .new this .. | .expression this _ =>
    heap.next this = stack.exit
  | .if this _ _ _ end_if =>
    arena.get end_if = some (.endIf this) ∧ heap.next end_if = stack.exit
  | .while this _ _ end_while =>
    arena.get end_while = some (.endWhile this) ∧ heap.next end_while = stack.exit
  | .synchronous this _ end_sync =>
    arena.get end_sync = some (.endSynchronous this) ∧ heap.next end_sync = stack.exit
  | .break this target => ∃ label stmt end_while outer,
    stack.find_loop target = some (label, stmt, end_while, outer) ∧
    heap.target this = some end_while ∧ outer.in_sync = stack.in_sync
  | .continue this target => ∃ label stmt end_while outer,
    stack.find_loop target = some (label, stmt, end_while, outer) ∧
    heap.target this = some stmt.this ∧ outer.in_sync = stack.in_sync
  | .goto this label => ∃ next,
    stack.find_label label = some next ∧
    heap.target this = some next.visit ∧ next.2.in_sync = stack.in_sync
  | .labeled .. | .return .. => True

-- The node of the arena that control is at.
def Control.node : Control → StatementId → Node
  | (.stmt _ stmt, _), _      => .statement stmt
  | (.endBlock body, _), _    => .endBlock body.this
  | (.endIf _, _), start      => .endIf start
  | (.endWhile _, _), start   => .endWhile start
  | (.endSync _, _), start    => .endSynchronous start

section

variable {arena : Arena} {heap : Heap}

theorem Control.Everywhere.get (h : control.Everywhere (LinkedAt arena heap)) :
    ∃ start, arena.get control.visit = some (control.node start) := by
  obtain ⟨point, stack⟩ := control
  have hp := h.1
  cases point
  case stmt label stmt => exact ⟨0, (Statement.Everywhere.here hp).1⟩
  case endBlock body => exact ⟨0, hp.2.1⟩
  case endIf end_if =>
    obtain ⟨this, _, _, _, hp⟩ := hp
    exact ⟨this, hp.2.1⟩
  case endWhile end_while =>
    obtain ⟨this, _, _, hp⟩ := hp
    exact ⟨this, hp.2.1⟩
  case endSync end_sync =>
    obtain ⟨this, _, hp⟩ := hp
    exact ⟨this, hp.2.1⟩

theorem Control.is_test_node (control : Control) (start : StatementId) :
    (control.node start).is_test = control.is_test := by
  obtain ⟨point, stack⟩ := control
  cases point
  case stmt label stmt => cases stmt <;> rfl
  case endBlock | endIf | endWhile | endSync => rfl

-- Following the links is the structured meaning.
theorem Control.Everywhere.follow (h : control.Everywhere (LinkedAt arena heap)) (start : StatementId)
    (outcome : Bool) :
    heap.follow control.visit (control.node start) outcome =
      (control.next outcome).map Control.visit := by
  obtain ⟨point, stack⟩ := control
  have hp := h.1
  cases point
  case endBlock body => exact hp.2.2.2
  case endIf end_if =>
    obtain ⟨_, _, _, _, hp⟩ := hp
    exact hp.2.2
  case endWhile end_while =>
    obtain ⟨_, _, _, hp⟩ := hp
    exact hp.2.2
  case endSync end_sync =>
    obtain ⟨_, _, hp⟩ := hp
    exact hp.2.2
  case stmt label stmt =>
    have hl := (Statement.Everywhere.here hp).2
    cases stmt
    case memory | channel | new | expression => exact hl
    case block body => exact hl.2.1
    case labeled | synchronous | «return» => rfl
    case «if» _ _ _ false_body _ => cases outcome <;> cases false_body <;> rfl
    case «while» => cases outcome <;> rfl
    case «break» | «continue» =>
      obtain ⟨_, _, _, _, hf, ht, _⟩ := hl
      simp only [Heap.follow, Control.next, Control.visit, Statement.this, hf, ht]
      rfl
    case goto =>
      obtain ⟨_, hf, ht, _⟩ := hl
      simp only [Heap.follow, Control.next, Control.visit, Statement.this, hf, ht]
      rfl

def Follows (arena : Arena) (heap : Heap) (position : StatementId) (control : Control) : Prop :=
  control.visit = position ∧ control.Everywhere (LinkedAt arena heap)

theorem Follows.bisimulation (arena : Arena) (heap : Heap) :
    (heap.machine arena).Bisimulation Control.machine (Follows arena heap) where
  visit h := h.1.symm
  is_test := by
    intro position control h
    obtain ⟨start, hg⟩ := h.2.get
    simp only [Heap.machine, ← h.1, hg]
    exact control.is_test_node start
  next := by
    intro position control h outcome
    obtain ⟨start, hg⟩ := h.2.get
    simp only [Heap.machine, ← h.1, hg, Option.bind_some, h.2.follow start outcome]
    cases hn : control.next outcome
    case none =>
      simp only [Control.machine, hn]
      exact .none
    case some next =>
      simp only [Control.machine, hn]
      exact .some ⟨rfl, h.2.next hn⟩

end

end Reowolf
