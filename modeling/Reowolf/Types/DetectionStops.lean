import Reowolf.Types.BaseTypes

namespace Reowolf.Types

open Halting (Halts)
open Relation (ReflTransGen)
open Reowolf.Parser (ParserTypeVariant SymbolTable)

-- The elements of a type that a member may be of, when there are no polymorphic arguments.
theorem construct_concrete_type_total {heap : Heap} {parser_type : ParserType}
    (hc : heap.check_member_parser_type parser_type false = .ok ())
    (hp : ∀ definition_id idx,
      ParserTypeVariant.polymorphicArgument definition_id idx ∉ parser_type)
    (container_type : ConcreteType) :
    ∃ concrete_type, construct_concrete_type parser_type container_type = some concrete_type ∧
      concrete_type.length = parser_type.length ∧
      ∀ part ∈ concrete_type, ∀ definition_id, part.definition_id = some definition_id →
        ∃ definition, heap.definitions[definition_id]? = some definition ∧ definition.is_data_type := by
  induction parser_type with
  | nil => exact ⟨[], rfl, rfl, by simp⟩
  | cons element parser_type ih =>
    have hrest : ∀ definition_id idx,
        ParserTypeVariant.polymorphicArgument definition_id idx ∉ parser_type :=
      fun definition_id idx hm => hp definition_id idx (List.mem_cons_of_mem _ hm)
    -- A builtin type in front of what can be constructed.
    have hbuiltin (part : ConcreteTypePart) (hpart : parser_to_concrete_part element = some part)
        (hid : ∀ definition_id, part.definition_id = some definition_id →
          ∃ definition, heap.definitions[definition_id]? = some definition ∧ definition.is_data_type)
        (hc : heap.check_member_parser_type parser_type false = .ok ()) :
        ∃ concrete_type,
          construct_concrete_type (element :: parser_type) container_type = some concrete_type ∧
          concrete_type.length = (element :: parser_type).length ∧
          ∀ part ∈ concrete_type, ∀ definition_id, part.definition_id = some definition_id →
            ∃ definition, heap.definitions[definition_id]? = some definition ∧
              definition.is_data_type := by
      obtain ⟨concrete_type, hct, hlen, hall⟩ := ih hc hrest
      refine ⟨part :: concrete_type, ?_, by simp [hlen], ?_⟩
      · simp only [construct_concrete_type, hpart, hct, Option.map_some]
      · intro part' hm
        cases List.mem_cons.mp hm with
        | inl heq => exact heq ▸ hid
        | inr hm  => exact hall part' hm
    cases element with
    | polymorphicArgument definition_id idx => exact absurd (by simp) (hp definition_id idx)
    | definition definition_id num =>
      unfold Heap.check_member_parser_type at hc
      dsimp only at hc
      cases hd : heap.definitions[definition_id]? with
      | none => simp [hd] at hc
      | some definition =>
        have hdata : definition.is_data_type = true ∧
            heap.check_member_parser_type parser_type false = .ok () := by
          rw [hd, Option.map_some] at hc
          unfold Definition.is_data_type
          split at hc <;> simp_all
        refine hbuiltin (.«instance» definition_id num) rfl (fun id hid => ?_) hdata.right
        cases hid
        exact ⟨definition, hd, hdata.left⟩
    | void | inputOrOutput | arrayLike | integerLike | integerLiteral | inferred => cases hc
    | _ => exact hbuiltin _ rfl (fun id hid => by cases hid) hc

namespace Heap

variable {heap : Heap} {symbols : SymbolTable}

theorem base_plain (hn : heap.Nonpolymorphic) {lookup : List DefinedType}
    (h : heap.build_base_definitions symbols 0 heap.definitions = .ok lookup) : PlainTable lookup := by
  have hbased := build_base_definitions_based h
  have hget {id : DefinitionId} {type : DefinedType} (ht : lookup[id]? = some type) :
      ∃ definition, heap.definitions[id]? = some definition ∧ Based heap definition type := by
    obtain ⟨hlt, heq⟩ := List.getElem?_eq_some_iff.mp ht
    have hlt' : id < heap.definitions.length := hbased.length_eq ▸ hlt
    exact ⟨_, List.getElem?_eq_getElem hlt', heq ▸ List.Forall₂.get hbased hlt' hlt⟩
  have hdata {id : DefinitionId} {definition : Definition}
      (hd : heap.definitions[id]? = some definition) (h : definition.is_data_type) :
      ∃ type, lookup[id]? = some type ∧ type.is_data_type := by
    obtain ⟨hlt, heq⟩ := List.getElem?_eq_some_iff.mp hd
    have hlt' : id < lookup.length := hbased.length_eq ▸ hlt
    have hb : Based heap definition lookup[id] := heq ▸ List.Forall₂.get hbased hlt hlt'
    exact ⟨_, List.getElem?_eq_getElem hlt', hb.data_type.trans h⟩
  constructor
  case members =>
    intro id type ht idx member hm
    obtain ⟨_, _, hb⟩ := hget ht
    simp [hb.no_members idx] at hm
  case types =>
    intro id type ht hdt
    obtain ⟨definition, hd, hb⟩ := hget ht
    have hnp := hn definition (List.mem_of_getElem? hd) (hb.data_type ▸ hdt)
    constructor
    case poly_vars =>
      have := hb.poly_vars
      rwa [hnp.poly_vars, List.length_nil, List.length_eq_zero_iff] at this
    case members =>
      intro parser_type hm container_type
      rw [hb.member_types] at hm
      obtain ⟨hne, hnone⟩ := hnp.members parser_type hm
      obtain ⟨concrete_type, hct, hlen, hall⟩ :=
        construct_concrete_type_total (hb.checked parser_type hm) hnone container_type
      refine ⟨concrete_type, hct, ?_⟩
      cases concrete_type with
      | nil => exact absurd (List.length_eq_zero_iff.mp hlen.symm) hne
      | cons part parts =>
        intro definition_id hid
        obtain ⟨definition', hd', hdt'⟩ := hall part (by simp) definition_id hid
        exact hdata hd' hdt'

end Heap

-- A table between two calls.
structure Idle (table : TypeTable) : Prop where
  plain       : PlainTable table.lookup
  breadcrumbs : table.type_loop_breadcrumbs = []
  type_loops  : table.type_loops = []

theorem DefinedType.is_data_type_of_push {type type' : DefinedType} {concrete_type : ConcreteType}
    {monomorph_idx : Nat} (h : type.push_monomorph concrete_type = .ok (type', monomorph_idx)) :
    type.is_data_type := by
  unfold push_monomorph at h
  cases hd : type.definition with
  | function definition  => simp [hd] at h
  | component definition => simp [hd] at h
  | _                    => simp [is_data_type, hd]

namespace Idle

variable {heap : Heap} {table table' : TypeTable}

theorem detecting_of_pushed (h : Idle table) {definition_id : DefinitionId}
    (hp : Pushed table table' definition_id) : Detecting table' := by
  have hb := hp.breadcrumbs
  rw [h.breadcrumbs, List.nil_append] at hb
  constructor
  case plain => exact hp.plain
  case instantiated =>
    intro breadcrumb hm
    rw [hb, List.mem_singleton] at hm
    exact hm ▸ hp.instantiated_new
  case engaged => simp [hb]
  case loops => simp [hp.type_loops, h.type_loops]

-- The initial breadcrumb.
theorem detecting (h : Idle table) {concrete_type definition_type : ConcreteType}
    {definition_id : DefinitionId}
    (hc : table.check_member_for_type_loops concrete_type =
      .ok (.pushBreadcrumb definition_id definition_type))
    (hh : table.handle_new_breadcrumb_for_type_loops definition_id definition_type = .ok table') :
    Detecting table' := by
  obtain ⟨type, _, _, ht, hpush, _⟩ := TypeTable.handle_new_breadcrumb_cases hh
  have hd := DefinedType.is_data_type_of_push hpush
  have hnone : type.get_monomorph_index concrete_type = none := by
    obtain ⟨_, _, hct, hcases⟩ := TypeTable.check_member_cases hc
    match hcases with
    | .inl ⟨_, heq⟩ => cases heq
    | .inr ⟨_, _, _, _, .inr ⟨_, _, .inl ⟨_, _, _, _, _, heq⟩⟩⟩ => cases heq
    | .inr ⟨_, _, _, _, .inr ⟨_, _, .inr ⟨heq, _⟩⟩⟩ => cases heq
    | .inr ⟨_, type', _, ht', .inl ⟨hnone, heq⟩⟩ =>
      cases heq
      have : type' = type := by simpa [ht] using ht'.symm
      exact this ▸ hnone
  rw [DefinedType.get_monomorph_index_of_plain (h.plain.types ht hd).poly_vars hd] at hnone
  have hn : type.num_monomorphs = 0 := by
    by_contra hne
    simp [hne] at hnone
  exact h.detecting_of_pushed (TypeTable.pushed_of_handle h.plain ht hd hn hh)

end Idle

theorem Detecting.rounds {heap : Heap} {table table' : TypeTable} (h : Detecting table)
    (hr : ReflTransGen (TypeTable.Round heap) table table') : Detecting table' := by
  induction hr with
  | refl         => exact h
  | tail _ hr ih => exact ih.round hr

theorem Detecting.resolved {heap : Heap} {table table' : TypeTable} {fuel : Nat} (h : Detecting table)
    (hr : table.resolve_breadcrumbs heap fuel = .ok table') :
    Detecting table' ∧ table'.type_loop_breadcrumbs = [] := by
  obtain ⟨hrounds, hend⟩ := TypeTable.rounds_of_resolve_breadcrumbs hr
  have hd := h.rounds hrounds
  obtain ⟨hb, _⟩ | ⟨_, hnext⟩ | ⟨_, hnext⟩ := hd.next_total heap
  · exact ⟨hd, hb⟩
  · cases hend.symm.trans hnext
  · cases hend.symm.trans hnext

theorem Idle.detected {heap : Heap} {table table' : TypeTable} {fuel : Nat}
    {concrete_type : ConcreteType} (h : Idle table)
    (hr : table.detect_and_resolve_type_loops_for heap fuel concrete_type = .ok table') :
    Idle table' := by
  obtain ⟨_, _, _, _, hc, hh, hl, he⟩ := TypeTable.detect_and_resolve_type_loops_for_cases hr
  subst he
  obtain ⟨hd, hb⟩ := (h.detecting hc hh).resolved hl
  exact ⟨hd.plain, hb, rfl⟩

theorem LaidOut.idle {table table' : TypeTable} (h : LaidOut table table') (hi : Idle table) :
    Idle table' :=
  ⟨hi.plain.sameTypes h.types, h.breadcrumbs.trans hi.breadcrumbs, h.type_loops.trans hi.type_loops⟩

theorem Built.idle {heap : Heap} {symbols : SymbolTable} {arch : TargetArch} {table : TypeTable}
    (hn : heap.Nonpolymorphic) (h : Built heap symbols arch table) : Idle table := by
  induction h with
  | base hb        => exact ⟨Heap.base_plain hn hb, rfl, rfl⟩
  | add _ hd hl ih => exact (TypeTable.lay_out_memory_laidOut hl).idle (ih.detected hd)

-- An outcome of a call: a result, or an error for the programmer.
def Stopped {α : Type*} (outcome : Except Stop α) : Prop :=
  (∃ a, outcome = .ok a) ∨ ∃ error, outcome = .error (.parse_error error)

-- The states of the main resolving loop for a requested type.
def TypeTable.Detects (heap : Heap) (table : TypeTable) (concrete_type : ConcreteType)
    (table' : TypeTable) : Prop :=
  ∃ definition_id definition_type initial,
    table.check_member_for_type_loops concrete_type =
      .ok (.pushBreadcrumb definition_id definition_type) ∧
    table.handle_new_breadcrumb_for_type_loops definition_id definition_type = .ok initial ∧
    ReflTransGen (TypeTable.Round heap) initial table'

theorem Idle.stops_iff {heap : Heap} {table : TypeTable} (h : Idle table) {definition_id : DefinitionId}
    {type : DefinedType} (ht : table.lookup[definition_id]? = some type) (hd : type.is_data_type)
    (hn : type.num_monomorphs = 0) :
    (∃ fuel, Stopped
        (table.detect_and_resolve_type_loops_for heap fuel [.«instance» definition_id 0])) ↔
      ∀ table', table.Detects heap [.«instance» definition_id 0] table' → ¬table'.ClosesAtStruct := by
  have hplain := h.plain.types ht hd
  have hc : table.check_member_for_type_loops [.«instance» definition_id 0] =
      .ok (.pushBreadcrumb definition_id [.«instance» definition_id 0]) := by
    simp [TypeTable.check_member_for_type_loops, ConcreteTypePart.definition_id, ht,
      DefinedType.get_monomorph_index_of_plain hplain.poly_vars hd, hn]
  obtain ⟨initial, hh⟩ : ∃ initial, table.handle_new_breadcrumb_for_type_loops definition_id
      [.«instance» definition_id 0] = .ok initial := by
    obtain ⟨out, ho⟩ := DefinedType.exists_push_monomorph hd hplain [.«instance» definition_id 0]
    simp [TypeTable.handle_new_breadcrumb_for_type_loops, ht, ho, bind, Except.bind]
  have hi : Detecting initial := h.detecting hc hh
  have hdetects : (∀ table', table.Detects heap [.«instance» definition_id 0] table' →
      ¬table'.ClosesAtStruct) ↔
        ∀ table', ReflTransGen (TypeTable.Round heap) initial table' → ¬table'.ClosesAtStruct := by
    constructor
    case mp => exact fun hall table' hr => hall table' ⟨_, _, initial, hc, hh, hr⟩
    case mpr =>
      rintro hall table' ⟨_, _, initial', hc', hh', hr⟩
      rw [hc] at hc'
      cases hc'
      rw [hh] at hh'
      cases hh'
      exact hall table' hr
  rw [hdetects, ← Halting.halts_iff TypeTable.to_do (fun hi hr => hi.round hr)
    (fun hi ht hr => hi.round_lt hr ht) (fun hi ht => hi.trapped ht) hi]
  constructor
  case mp =>
    rintro ⟨fuel, hs⟩
    have hne : initial.resolve_breadcrumbs heap fuel ≠ .error .fuel := by
      intro hfuel
      simp [TypeTable.detect_and_resolve_type_loops_for, hc, hh, hfuel, bind, Except.bind,
        Stopped] at hs
    exact TypeTable.halts_of_resolve_breadcrumbs hne
  case mpr =>
    intro hhalts
    obtain ⟨fuel, ⟨table', hr, hd'⟩ | ⟨error, hr⟩⟩ := hi.resolve_breadcrumbs_of_halts hhalts
    · refine ⟨fuel, ?_⟩
      obtain hcheck | ⟨error, hcheck⟩ := hd'.check_type_loops_total heap
      · refine .inl ⟨{ table' with type_loops := [] }, ?_⟩
        simp [TypeTable.detect_and_resolve_type_loops_for, hc, hh, hr, hcheck, bind, Except.bind]
      · refine .inr ⟨error, ?_⟩
        simp [TypeTable.detect_and_resolve_type_loops_for, hc, hh, hr, hcheck, bind, Except.bind]
    · refine ⟨fuel, .inr ⟨error, ?_⟩⟩
      simp [TypeTable.detect_and_resolve_type_loops_for, hc, hh, hr, bind, Except.bind]

-- Type loop detection stops, with a result or with an error, if and only if no struct ever closes a
-- type loop that has a union in it.
theorem detect_and_resolve_type_loops_for_stops_iff {heap : Heap} {symbols : SymbolTable}
    {arch : TargetArch} {table : TypeTable} (hn : heap.Nonpolymorphic)
    (hb : Built heap symbols arch table) {definition_id : DefinitionId} {type : DefinedType}
    (ht : table.lookup[definition_id]? = some type) (hd : type.is_data_type)
    (hnew : type.num_monomorphs = 0) :
    (∃ fuel, Stopped
        (table.detect_and_resolve_type_loops_for heap fuel [.«instance» definition_id 0])) ↔
      ∀ table', table.Detects heap [.«instance» definition_id 0] table' → ¬table'.ClosesAtStruct :=
  (hb.idle hn).stops_iff ht hd hnew

-- `union U { a(S), b }` and `struct S { U u }`.
def linked : Heap := ⟨[
  ⟨none, "U", [], .union [⟨"a", [[.definition 1 0]]⟩, ⟨"b", []⟩]⟩,
  ⟨none, "S", [], .struct [⟨"u", [.definition 0 0]⟩]⟩]⟩

def linked_table : TypeTable :=
  { TypeTable.new with
    lookup := (linked.build_base_definitions SymbolTable.new 0 linked.definitions).toOption.getD [] }

theorem linked_nonpolymorphic : linked.Nonpolymorphic := by
  intro definition hm _
  simp only [linked, List.mem_cons, List.not_mem_nil, or_false] at hm
  rcases hm with rfl | rfl
  · exact ⟨rfl, by simp [Definition.member_types]⟩
  · exact ⟨rfl, by simp [Definition.member_types]⟩

theorem linked_built (arch : TargetArch) : Built linked SymbolTable.new arch linked_table :=
  .base rfl

theorem detect_and_resolve_type_loops_for_stops_iff_linked :
    (∃ fuel, Stopped
        (linked_table.detect_and_resolve_type_loops_for linked fuel [.«instance» 1 0])) ↔
      ∀ table', linked_table.Detects linked [.«instance» 1 0] table' → ¬table'.ClosesAtStruct :=
  detect_and_resolve_type_loops_for_stops_iff linked_nonpolymorphic (linked_built .new) rfl rfl rfl

-- A request for the union closes the loop at the struct.
theorem linked_closes_at_struct : ∃ table', linked_table.Detects linked [.«instance» 0 0] table' ∧
    table'.ClosesAtStruct := by
  refine ⟨_, ⟨0, [.«instance» 0 0], _, rfl, rfl, .single rfl⟩, ?_⟩
  exact ⟨[⟨0, 0, 0, 0⟩], ⟨1, 0, 0, 0⟩, ⟨1, 0, 0, 0⟩, 0, rfl, rfl, rfl, ⟨0, 0, 0, 0⟩, by simp, rfl⟩

theorem detection_runs_forever :
    ¬∀ (heap : Heap) (symbols : SymbolTable) (arch : TargetArch) (table : TypeTable)
      (definition_id : DefinitionId) (type : DefinedType), heap.Nonpolymorphic →
      Built heap symbols arch table → table.lookup[definition_id]? = some type →
      type.is_data_type → type.num_monomorphs = 0 →
      ∃ fuel, Stopped
        (table.detect_and_resolve_type_loops_for heap fuel [.«instance» definition_id 0]) := by
  intro h
  have hstops := h linked SymbolTable.new .new linked_table 0 _ linked_nonpolymorphic
    (linked_built .new) rfl rfl rfl
  obtain ⟨table', hd, hc⟩ := linked_closes_at_struct
  have hidle := (linked_built .new).idle linked_nonpolymorphic
  exact (hidle.stops_iff rfl rfl rfl).mp hstops table' hd hc

end Reowolf.Types
