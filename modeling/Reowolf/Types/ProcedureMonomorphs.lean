import Reowolf.Parser.ModuleScopes
import Reowolf.Types.MonomorphSharing

namespace Reowolf.Types

open Reowolf.Parser (SymbolTable)

-- A procedure that is yet to be type checked.
structure ResolveQueueElement where
  root_id                : Parser.RootId
  definition_id          : DefinitionId
  reserved_monomorph_idx : Nat

-- `none` for the data types, for which the source holds the call to be unreachable.
def DefinedType.procedure_monomorphs (type : DefinedType) : Option (List ProcedureMonomorph) :=
  match type.definition with
  | .function definition  => some definition.monomorphs
  | .component definition => some definition.monomorphs
  | _                     => none

-- The type under which a procedure without polymorphic variables is queued.
def Definition.first_concrete_part (definition : Definition) (definition_id : DefinitionId) :
    Option ConcreteTypePart :=
  match definition.variant with
  | .function .. => if definition.poly_vars = [] then some (.function definition_id 0) else none
  | .component _ => if definition.poly_vars = [] then some (.component definition_id 0) else none
  | _            => none

namespace TypeTable

def procedure_monomorphs (table : TypeTable) (definition_id : DefinitionId) :
    Option (List ProcedureMonomorph) :=
  table.lookup[definition_id]?.bind DefinedType.procedure_monomorphs

def get_procedure_monomorph_index (table : TypeTable) (definition_id : DefinitionId)
    (concrete_type : ConcreteType) : Except Stop (Option Nat) :=
  match table.procedure_monomorphs definition_id with
  | none            => .error .panic
  | some monomorphs => .ok (monomorphs.findIdx? (·.concrete_type = concrete_type))

-- `none` where the source panics.
def get_procedure_expression_data (table : TypeTable) (definition_id : DefinitionId)
    (monomorph_idx : Nat) : Option ProcedureMonomorph := do
  let monomorphs ← table.procedure_monomorphs definition_id
  monomorphs[monomorph_idx]?

end TypeTable

-- The table and the queue, with the end of the queue first.
abbrev TypingState :=
  TypeTable × List ResolveQueueElement

section

variable (heap : Heap)

def queue_definition (root_id : Parser.RootId) (s : TypingState) (definition_id : DefinitionId) :
    Except Stop TypingState :=
  match heap.definitions[definition_id]? with
  | none => .error .panic
  | some definition =>
    match definition.first_concrete_part definition_id with
    | none => .ok s
    | some first_concrete_part => do
      let (table, reserved_idx) ←
        s.1.reserve_procedure_monomorph_index definition_id [first_concrete_part]
      .ok (table, ⟨root_id, definition_id, reserved_idx⟩ :: s.2)

def queue_module_definitions (root_id : Parser.RootId) (definitions : List DefinitionId)
    (s : TypingState) : Except Stop TypingState :=
  definitions.foldlM (queue_definition heap root_id) s

-- The loop over the modules, whose roots come in the order of their ids.
def queue_modules : Parser.RootId → List Parser.Root → TypingState → Except Stop TypingState
  | _, [], s => .ok s
  | root_id, root :: roots, s => do
    let s ← queue_module_definitions heap root_id root.definitions s
    queue_modules (root_id + 1) roots s

-- What the type checking of the queued procedures does to the table: it takes a procedure from the end
-- of the queue, adds the data types that it comes across, and queues the procedures that are called and
-- that are not in the table yet.
inductive TypingStep (arch : TargetArch) : TypingState → TypingState → Prop
  | pop {table : TypeTable} {queue : List ResolveQueueElement} (top : ResolveQueueElement) :
    TypingStep arch (table, top :: queue) (table, queue)
  | add {table table' : TypeTable} {queue : List ResolveQueueElement} {fuel monomorph_idx : Nat}
      {definition_id : DefinitionId} {concrete_type : ConcreteType} :
    TypeTable.add_data_monomorph arch heap fuel table definition_id concrete_type =
      .ok (table', monomorph_idx) →
    TypingStep arch (table, queue) (table', queue)
  | reserve {table table' : TypeTable} {queue : List ResolveQueueElement} {reserved_idx : Nat}
      {definition_id : DefinitionId} {concrete_type : ConcreteType} (root_id : Parser.RootId) :
    table.get_procedure_monomorph_index definition_id concrete_type = .ok none →
    table.reserve_procedure_monomorph_index definition_id concrete_type =
      .ok (table', reserved_idx) →
    TypingStep arch (table, queue) (table', ⟨root_id, definition_id, reserved_idx⟩ :: queue)

-- The tables of the programs that pass the type checking.
inductive Typechecked (arch : TargetArch) (symbols : SymbolTable) (roots : List Parser.Root) :
    TypeTable → Prop
  | mk {base table : TypeTable} {fuel : Nat} {queued : TypingState} :
    TypeTable.build_base_types arch heap symbols fuel = .ok base →
    queue_modules heap 0 roots (base, []) = .ok queued →
    Relation.ReflTransGen (TypingStep heap arch) queued (table, []) →
    Typechecked arch symbols roots table

end

-- Two tables with the same procedures and the same monomorphs of them.
def SameProcedures (lookup lookup' : List DefinedType) : Prop :=
  ∀ id : DefinitionId, lookup'[id]?.bind DefinedType.procedure_monomorphs =
    lookup[id]?.bind DefinedType.procedure_monomorphs

theorem DefinedType.procedure_monomorphs_of_data {type : DefinedType} (h : type.is_data_type) :
    type.procedure_monomorphs = none := by
  unfold is_data_type at h
  unfold procedure_monomorphs
  cases hd : type.definition with
  | function  => simp [hd] at h
  | component => simp [hd] at h
  | _         => rfl

theorem DefinedType.erased_procedure_monomorphs (type : DefinedType) :
    type.erased.procedure_monomorphs = type.procedure_monomorphs := by
  obtain ⟨_, _, definition, _, _⟩ := type
  cases definition <;> rfl

namespace SameProcedures

variable {lookup lookup' lookup'' : List DefinedType} {table table' : TypeTable} {heap : Heap}

theorem refl (lookup : List DefinedType) : SameProcedures lookup lookup :=
  fun _ => rfl

theorem trans (h : SameProcedures lookup lookup') (h' : SameProcedures lookup' lookup'') :
    SameProcedures lookup lookup'' :=
  fun id => (h' id).trans (h id)

theorem of_sameTypes (h : SameTypes lookup lookup') : SameProcedures lookup lookup' := by
  intro id
  have hc := congrArg Option.join (h.congr DefinedType.erased_procedure_monomorphs id)
  simpa only [← Option.bind_id_eq_join, Option.bind_map, Function.id_comp] using hc

-- A data type gets another monomorph.
theorem push {id : DefinitionId} {t : ConcreteType}
    (h : table.handle_new_breadcrumb_for_type_loops id t = .ok table') :
    SameProcedures table.lookup table'.lookup := by
  obtain ⟨type, type', _, ht, hpush, he⟩ := TypeTable.handle_new_breadcrumb_cases h
  have hd  := DefinedType.is_data_type_of_push hpush
  have hd' : type'.is_data_type := by
    rw [← type'.base_is_data_type, (DefinedType.push_monomorph_cases hpush).base,
      type.base_is_data_type, hd]
  subst he
  intro id'
  by_cases hid : id = id'
  case pos =>
    subst hid
    rw [List.getElem?_set_self (List.getElem?_eq_some_iff.mp ht).fst, ht, Option.bind_some,
      Option.bind_some, DefinedType.procedure_monomorphs_of_data hd,
      DefinedType.procedure_monomorphs_of_data hd']
  case neg => rw [List.getElem?_set_ne hid]

theorem round (h : table.next heap = some (.ok table')) :
    SameProcedures table.lookup table'.lookup := by
  obtain ⟨_, _, _, _, _, _, hcases⟩ := TypeTable.next_cases h
  rcases hcases with ⟨_, he⟩ | ⟨_, _, _, hpush⟩ | ⟨_, _, hloop⟩
  · exact he ▸ refl _
  · exact fun id => push hpush id
  · obtain ⟨_, hs, _, _, he⟩ := TypeTable.handle_type_loop_cases hloop
    exact he ▸ of_sameTypes hs

theorem rounds (h : Relation.ReflTransGen (TypeTable.Round heap) table table') :
    SameProcedures table.lookup table'.lookup := by
  induction h with
  | refl         => exact refl _
  | tail _ hr ih => exact ih.trans (round hr)

theorem detect {fuel : Nat} {t : ConcreteType}
    (h : table.detect_and_resolve_type_loops_for heap fuel t = .ok table') :
    SameProcedures table.lookup table'.lookup := by
  obtain ⟨_, _, _, _, _, hpush, hresolve, he⟩ := TypeTable.detect_and_resolve_type_loops_for_cases h
  subst he
  have hresolved := rounds (TypeTable.rounds_of_resolve_breadcrumbs hresolve).left
  exact fun id => (push hpush).trans hresolved id

theorem add_data_monomorph {arch : TargetArch} {fuel monomorph_idx : Nat} {id : DefinitionId}
    {t : ConcreteType}
    (h : TypeTable.add_data_monomorph arch heap fuel table id t = .ok (table', monomorph_idx)) :
    SameProcedures table.lookup table'.lookup := by
  obtain he | ⟨_, hdetect, hlay⟩ := TypeTable.add_data_monomorph_cases h
  · exact he ▸ refl _
  · exact (detect hdetect).trans (of_sameTypes (TypeTable.lay_out_memory_laidOut hlay).types)

end SameProcedures

-- A procedure with the monomorph that is the first to be reserved.
def TypeTable.Instantiated (table : TypeTable) (id : DefinitionId) : Prop :=
  ∃ monomorph, table.get_procedure_expression_data id 0 = some monomorph

namespace TypeTable

variable {table table' : TypeTable} {id id' : DefinitionId} {t : ConcreteType}

theorem instantiated_iff :
    table.Instantiated id ↔ ∃ monomorphs, table.procedure_monomorphs id = some monomorphs ∧
      0 < monomorphs.length := by
  simp only [Instantiated, get_procedure_expression_data, Option.bind_eq_bind, Option.bind_eq_some_iff]
  constructor
  case mp =>
    rintro ⟨_, monomorphs, hm, h⟩
    exact ⟨monomorphs, hm, (List.getElem?_eq_some_iff.mp h).fst⟩
  case mpr =>
    rintro ⟨monomorphs, hm, h⟩
    exact ⟨_, monomorphs, hm, List.getElem?_eq_getElem h⟩

theorem Instantiated.sameProcedures (h : table.Instantiated id)
    (hs : SameProcedures table.lookup table'.lookup) : table'.Instantiated id := by
  rw [instantiated_iff] at h ⊢
  rwa [procedure_monomorphs, hs id]

theorem reserve_cases {reserved_idx : Nat}
    (h : table.reserve_procedure_monomorph_index id t = .ok (table', reserved_idx)) :
    ∃ monomorphs, table.procedure_monomorphs id = some monomorphs ∧
      reserved_idx = monomorphs.length ∧ ∀ id', table'.procedure_monomorphs id' =
        if id' = id then some (monomorphs ++ [⟨t⟩]) else table.procedure_monomorphs id' := by
  unfold reserve_procedure_monomorph_index at h
  split at h
  case h_1 => cases h
  case h_2 type ht =>
    have hset {type' : DefinedType} {monomorphs : List ProcedureMonomorph}
        (hm : type'.procedure_monomorphs = some monomorphs) (id' : DefinitionId) :
        (table.lookup.set id type')[id']?.bind DefinedType.procedure_monomorphs =
          if id' = id then some monomorphs else table.procedure_monomorphs id' := by
      by_cases hid : id' = id
      case pos =>
        rw [if_pos hid, hid, List.getElem?_set_self (List.getElem?_eq_some_iff.mp ht).fst,
          Option.bind_some, hm]
      case neg => rw [if_neg hid, List.getElem?_set_ne (Ne.symm hid)]; rfl
    split at h
    case h_1 definition hd =>
      cases h
      refine ⟨definition.monomorphs, ?_, rfl, hset rfl⟩
      rw [procedure_monomorphs, ht, Option.bind_some, DefinedType.procedure_monomorphs, hd]
    case h_2 definition hd =>
      cases h
      refine ⟨definition.monomorphs, ?_, rfl, hset rfl⟩
      rw [procedure_monomorphs, ht, Option.bind_some, DefinedType.procedure_monomorphs, hd]
    case h_3 => cases h

-- What is reserved can be looked up, and nothing else is lost.
theorem instantiated_reserve {reserved_idx : Nat}
    (h : table.reserve_procedure_monomorph_index id t = .ok (table', reserved_idx)) :
    table'.Instantiated id' ↔ id' = id ∨ table.Instantiated id' := by
  obtain ⟨monomorphs, _, _, htable⟩ := reserve_cases h
  rw [instantiated_iff, instantiated_iff, htable]
  by_cases hid : id' = id
  case pos => simp [hid]
  case neg => simp [hid]

end TypeTable

section

variable {heap : Heap} {s s' : TypingState} {id : DefinitionId} {root_id : Parser.RootId}
  {definition : Definition} {part : ConcreteTypePart}

theorem queue_definition_instantiates {definition_id : DefinitionId}
    (h : queue_definition heap root_id s definition_id = .ok s') (hi : s.1.Instantiated id) :
    s'.1.Instantiated id := by
  unfold queue_definition at h
  split at h
  case h_1 => cases h
  case h_2 =>
    split at h
    case h_1 => cases h; exact hi
    case h_2 =>
      obtain ⟨⟨_, _⟩, hr, h⟩ := Except.bind_eq_ok.mp h
      cases h
      exact (TypeTable.instantiated_reserve hr).mpr (.inr hi)

theorem queue_definition_self (h : queue_definition heap root_id s id = .ok s')
    (hd : heap.definitions[id]? = some definition)
    (hpart : definition.first_concrete_part id = some part) : s'.1.Instantiated id := by
  simp only [queue_definition, hd, hpart] at h
  obtain ⟨⟨_, _⟩, hr, h⟩ := Except.bind_eq_ok.mp h
  cases h
  exact (TypeTable.instantiated_reserve hr).mpr (.inl rfl)

theorem queue_module_keeps {definitions : List DefinitionId}
    (h : queue_module_definitions heap root_id definitions s = .ok s') (hi : s.1.Instantiated id) :
    s'.1.Instantiated id := by
  induction definitions generalizing s with
  | nil => cases h; exact hi
  | cons definition_id definitions ih =>
    rw [queue_module_definitions, List.foldlM_cons] at h
    obtain ⟨s₁, h₁, h⟩ := Except.bind_eq_ok.mp h
    exact ih h (queue_definition_instantiates h₁ hi)

theorem queue_module_instantiates {definitions : List DefinitionId}
    (h : queue_module_definitions heap root_id definitions s = .ok s') (hmem : id ∈ definitions)
    (hd : heap.definitions[id]? = some definition)
    (hpart : definition.first_concrete_part id = some part) : s'.1.Instantiated id := by
  induction definitions generalizing s with
  | nil => cases hmem
  | cons definition_id definitions ih =>
    rw [queue_module_definitions, List.foldlM_cons] at h
    obtain ⟨s₁, h₁, hrest⟩ := Except.bind_eq_ok.mp h
    cases hmem with
    | head        => exact queue_module_keeps hrest (queue_definition_self h₁ hd hpart)
    | tail _ hmem => exact ih hrest hmem

theorem queue_modules_keeps {roots : List Parser.Root}
    (h : queue_modules heap root_id roots s = .ok s') (hi : s.1.Instantiated id) :
    s'.1.Instantiated id := by
  induction roots generalizing root_id s with
  | nil => cases h; exact hi
  | cons root roots ih =>
    obtain ⟨s₁, h₁, h⟩ := Except.bind_eq_ok.mp h
    exact ih h (queue_module_keeps h₁ hi)

theorem queue_modules_instantiates {roots : List Parser.Root} {root : Parser.Root}
    (h : queue_modules heap root_id roots s = .ok s') (hroot : root ∈ roots)
    (hmem : id ∈ root.definitions) (hd : heap.definitions[id]? = some definition)
    (hpart : definition.first_concrete_part id = some part) : s'.1.Instantiated id := by
  induction roots generalizing root_id s with
  | nil => cases hroot
  | cons root' roots ih =>
    obtain ⟨s₁, h₁, hrest⟩ := Except.bind_eq_ok.mp h
    cases hroot with
    | head         => exact queue_modules_keeps hrest (queue_module_instantiates h₁ hmem hd hpart)
    | tail _ hroot => exact ih hrest hroot

theorem TypingStep.instantiated {arch : TargetArch} (h : TypingStep heap arch s s')
    (hi : s.1.Instantiated id) : s'.1.Instantiated id := by
  cases h with
  | pop            => exact hi
  | add ha         => exact hi.sameProcedures (.add_data_monomorph ha)
  | reserve _ _ hr => exact (TypeTable.instantiated_reserve hr).mpr (.inr hi)

-- The type checker starts from all procedures without polymorphic variables, so that each of them has a
-- monomorph in the end. A polymorphic one has none unless it is called.
theorem Typechecked.instantiated {arch : TargetArch} {symbols : SymbolTable}
    {roots : List Parser.Root} {root : Parser.Root} {table : TypeTable}
    (h : Typechecked heap arch symbols roots table) (hroot : root ∈ roots)
    (hmem : id ∈ root.definitions) (hd : heap.definitions[id]? = some definition)
    (hpart : definition.first_concrete_part id = some part) : table.Instantiated id := by
  obtain ⟨_, hqueue, hsteps⟩ := h
  have hqueued := queue_modules_instantiates hqueue hroot hmem hd hpart
  clear hqueue
  generalize he : (table, ([] : List ResolveQueueElement)) = last at hsteps
  have hrun : last.1.Instantiated id := by
    clear he
    induction hsteps with
    | refl            => exact hqueued
    | tail _ hstep ih => exact hstep.instantiated ih
  rw [← he] at hrun
  exact hrun

end

end Reowolf.Types
