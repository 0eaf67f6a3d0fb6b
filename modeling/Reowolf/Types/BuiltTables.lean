import Reowolf.Types.MemoryLayout
import Reowolf.Types.LoopHalting

namespace Reowolf.Types

open Reowolf.Parser (SymbolTable)

@[simp] theorem place_erased (member : MonomorphMember) (size alignment offset : Nat) :
    (member.place size alignment offset).erased = member.erased :=
  rfl

@[simp] theorem place_on_heap_erased (member : MonomorphMember) (size alignment offset : Nat) :
    (member.place_on_heap size alignment offset).erased = member.erased :=
  rfl

-- To place members is to fill in their layout.
theorem place_members_erased {place : MonomorphMember → Nat → Nat → Nat → MonomorphMember}
    (hp : ∀ member size alignment offset, (place member size alignment offset).erased = member.erased)
    {sizes : List (Nat × Nat)} {offset alignment : Nat} {members : List MonomorphMember}
    {placement : Placement} (h : place_members place sizes offset alignment members = .ok placement) :
    placement.members.map MonomorphMember.erased = members.map MonomorphMember.erased := by
  induction members generalizing sizes offset alignment placement with
  | nil =>
    rw [place_members] at h
    cases h
    rfl
  | cons member members ih =>
    cases sizes with
    | nil => cases h
    | cons size_alignment sizes =>
      obtain ⟨member_offset, _, h⟩ := Except.bind_eq_ok.mp h
      obtain ⟨offset', _, h⟩ := Except.bind_eq_ok.mp h
      obtain ⟨placement', hrest, h⟩ := Except.bind_eq_ok.mp h
      cases h
      simp only [List.map_cons, hp, ih hrest]

theorem variant_erased_of_members {variant : UnionMonomorphVariant} {members : List MonomorphMember}
    (h : members.map MonomorphMember.erased = variant.embedded.map MonomorphMember.erased) :
    { variant with embedded := members : UnionMonomorphVariant }.erased = variant.erased := by
  simp only [UnionMonomorphVariant.erased, h]

theorem place_variants_erased {arch : TargetArch} {tag_size : Nat} {sizes : List (Nat × Nat)}
    {max_size max_alignment : Nat} {variants : List UnionMonomorphVariant} {placement : VariantPlacement}
    (h : place_variants arch tag_size sizes max_size max_alignment variants = .ok placement) :
    placement.variants.map UnionMonomorphVariant.erased = variants.map UnionMonomorphVariant.erased := by
  induction variants generalizing sizes max_size max_alignment placement with
  | nil =>
    cases h
    rfl
  | cons variant variants ih =>
    rw [place_variants] at h
    obtain ⟨members, hmembers, h⟩ := Except.bind_eq_ok.mp h
    obtain ⟨rest, hrest, h⟩ := Except.bind_eq_ok.mp h
    cases h
    simp only [List.map_cons, ih hrest]
    refine congrArg (· :: _) (variant_erased_of_members ?_)
    unfold place_variant at hmembers
    split at hmembers
    case isTrue =>
      obtain ⟨offset, _, hmembers⟩ := Except.bind_eq_ok.mp hmembers
      obtain ⟨end_offset, _, hmembers⟩ := Except.bind_eq_ok.mp hmembers
      cases hmembers
      rfl
    case isFalse => exact place_members_erased place_erased hmembers

theorem place_heap_variants_erased {sizes : List (Nat × Nat)} {max_size max_alignment : Nat}
    {variants : List UnionMonomorphVariant} {placement : VariantPlacement}
    (h : place_heap_variants sizes max_size max_alignment variants = .ok placement) :
    placement.variants.map UnionMonomorphVariant.erased = variants.map UnionMonomorphVariant.erased := by
  induction variants generalizing sizes max_size max_alignment placement with
  | nil =>
    cases h
    rfl
  | cons variant variants ih =>
    unfold place_heap_variants at h
    split at h
    case isTrue =>
      obtain ⟨members, hmembers, h⟩ := Except.bind_eq_ok.mp h
      obtain ⟨rest, hrest, h⟩ := Except.bind_eq_ok.mp h
      cases h
      simp only [List.map_cons, ih hrest]
      exact congrArg (· :: _)
        (variant_erased_of_members (place_members_erased place_on_heap_erased hmembers))
    case isFalse =>
      obtain ⟨rest, hrest, h⟩ := Except.bind_eq_ok.mp h
      cases h
      simp only [List.map_cons, ih hrest]

-- A union of which a monomorph has been laid out.
theorem union_erased_set {type : DefinedType} {definition : UnionType} {monomorph_idx : Nat}
    {monomorph monomorph' : UnionMonomorph} (hd : type.definition = .union definition)
    (hm : definition.monomorphs[monomorph_idx]? = some monomorph)
    (h : monomorph'.erased = monomorph.erased) :
    { type with definition := .union { definition with
        monomorphs := definition.monomorphs.set monomorph_idx monomorph' } : DefinedType }.erased =
      type.erased := by
  simp only [DefinedType.erased, hd, map_set_of_eq hm h]

theorem struct_erased_set {type : DefinedType} {definition : StructType} {monomorph_idx : Nat}
    {monomorph monomorph' : StructMonomorph} (hd : type.definition = .struct definition)
    (hm : definition.monomorphs[monomorph_idx]? = some monomorph)
    (h : monomorph'.erased = monomorph.erased) :
    { type with definition := .struct { definition with
        monomorphs := definition.monomorphs.set monomorph_idx monomorph' } : DefinedType }.erased =
      type.erased := by
  simp only [DefinedType.erased, hd, map_set_of_eq hm h]

-- What laying out memory leaves alone.
structure LaidOut (table table' : TypeTable) : Prop where
  types       : SameTypes table.lookup table'.lookup
  breadcrumbs : table'.type_loop_breadcrumbs = table.type_loop_breadcrumbs
  type_loops  : table'.type_loops = table.type_loops

namespace LaidOut

variable {table table' table'' : TypeTable}

theorem refl (table : TypeTable) : LaidOut table table :=
  ⟨.refl _, rfl, rfl⟩

theorem trans (h : LaidOut table table') (h' : LaidOut table' table'') : LaidOut table table'' :=
  ⟨h.types.trans h'.types, h'.breadcrumbs.trans h.breadcrumbs, h'.type_loops.trans h.type_loops⟩

end LaidOut

namespace TypeTable

variable {arch : TargetArch} {table table' : TypeTable}

theorem lay_out_breadcrumb_laidOut {below : List MemoryBreadcrumb} {breadcrumb : MemoryBreadcrumb}
    (h : table.lay_out_breadcrumb arch below breadcrumb = .ok table') : LaidOut table table' := by
  unfold lay_out_breadcrumb at h
  cases ht : table.lookup[breadcrumb.definition_id]? with
  | none => simp [ht] at h
  | some type =>
    simp only [ht] at h
    cases hd : type.definition with
    | enum definition =>
      simp only [hd] at h
      cases h
      exact ⟨.refl _, rfl, rfl⟩
    | union definition =>
      simp only [hd] at h
      cases hm : definition.monomorphs[breadcrumb.monomorph_idx]? with
      | none => simp [hm] at h
      | some monomorph =>
        simp only [hm] at h
        obtain ⟨⟨next_member, next_embedded, stack, pushed⟩, _, h⟩ := Except.bind_eq_ok.mp h
        cases pushed with
        | some new_breadcrumb =>
          cases h
          exact ⟨.refl _, rfl, rfl⟩
        | none =>
          obtain ⟨placement, hp, h⟩ := Except.bind_eq_ok.mp h
          cases h
          refine ⟨.set ht (union_erased_set hd hm ?_), rfl, rfl⟩
          simp only [UnionMonomorph.erased, place_variants_erased hp]
    | struct definition =>
      simp only [hd] at h
      cases hm : definition.monomorphs[breadcrumb.monomorph_idx]? with
      | none => simp [hm] at h
      | some monomorph =>
        simp only [hm] at h
        obtain ⟨⟨next_member, stack, pushed⟩, _, h⟩ := Except.bind_eq_ok.mp h
        cases pushed with
        | some new_breadcrumb =>
          cases h
          exact ⟨.refl _, rfl, rfl⟩
        | none =>
          obtain ⟨placement, hp, h⟩ := Except.bind_eq_ok.mp h
          cases h
          refine ⟨.set ht (struct_erased_set hd hm ?_), rfl, rfl⟩
          simp only [StructMonomorph.erased, place_members_erased place_erased hp]
    | _ => simp [hd] at h

theorem lay_out_breadcrumbs_laidOut {fuel : Nat}
    (h : table.lay_out_breadcrumbs arch fuel = .ok table') : LaidOut table table' := by
  induction fuel generalizing table with
  | zero =>
    unfold lay_out_breadcrumbs at h
    split at h
    case h_1 =>
      cases h
      exact .refl _
    case h_2 => cases h
  | succ fuel ih =>
    unfold lay_out_breadcrumbs at h
    split at h
    case h_1 =>
      cases h
      exact .refl _
    case h_2 =>
      obtain ⟨table₁, hstep, h⟩ := Except.bind_eq_ok.mp h
      exact (lay_out_breadcrumb_laidOut hstep).trans (ih h)

theorem lay_out_heap_variants_laidOut {entry : TypeLoopEntry}
    (h : table.lay_out_heap_variants arch entry = .ok table') : LaidOut table table' := by
  unfold lay_out_heap_variants at h
  split at h
  case isTrue =>
    cases h
    exact .refl _
  case isFalse =>
    split at h
    case h_1 => cases h
    case h_2 type ht =>
      split at h
      case h_2 => cases h
      case h_1 definition hd =>
        split at h
        case h_1 => cases h
        case h_2 monomorph hm =>
          obtain ⟨stack, _, h⟩ := Except.bind_eq_ok.mp h
          obtain ⟨placement, hp, h⟩ := Except.bind_eq_ok.mp h
          cases h
          refine ⟨.set ht (union_erased_set hd hm ?_), rfl, rfl⟩
          split <;> simp only [UnionMonomorph.erased, place_heap_variants_erased hp]

theorem lay_out_encountered_heap_variants_laidOut {entries : List TypeLoopEntry}
    (h : table.lay_out_encountered_heap_variants arch entries = .ok table') : LaidOut table table' := by
  induction entries generalizing table with
  | nil =>
    cases h
    exact .refl _
  | cons entry entries ih =>
    obtain ⟨table₁, hstep, h⟩ := Except.bind_eq_ok.mp h
    exact (lay_out_heap_variants_laidOut hstep).trans (ih h)

theorem lay_out_memory_laidOut {fuel : Nat}
    (h : table.lay_out_memory_for_encountered_types arch fuel = .ok table') : LaidOut table table' := by
  unfold lay_out_memory_for_encountered_types at h
  split at h
  case h_1 => cases h
  case h_2 =>
    obtain ⟨table₁, h₁, h⟩ := Except.bind_eq_ok.mp h
    obtain ⟨table₂, h₂, h⟩ := Except.bind_eq_ok.mp h
    cases h
    have hl₁ := lay_out_breadcrumbs_laidOut h₁
    have hl := hl₁.trans (lay_out_encountered_heap_variants_laidOut h₂)
    exact ⟨hl.types, hl.breadcrumbs, hl.type_loops⟩

-- The type is there already, or it is detected and laid out.
theorem add_data_monomorph_cases {heap : Heap} {arch : TargetArch} {table table' : TypeTable}
    {fuel monomorph_idx : Nat} {definition_id : DefinitionId} {concrete_type : ConcreteType}
    (h : add_data_monomorph arch heap fuel table definition_id concrete_type =
      .ok (table', monomorph_idx)) :
    table' = table ∨
      ∃ table₁, table.detect_and_resolve_type_loops_for heap fuel concrete_type = .ok table₁ ∧
        table₁.lay_out_memory_for_encountered_types arch fuel = .ok table' := by
  unfold add_data_monomorph at h
  split at h
  case h_1 => cases h
  case h_2 =>
    split at h
    case h_1 =>
      cases h
      exact .inl rfl
    case h_2 =>
      obtain ⟨table₁, hdetect, h⟩ := Except.bind_eq_ok.mp h
      split at h
      case h_1 => cases h
      case h_2 =>
        obtain ⟨table₂, hlay, h⟩ := Except.bind_eq_ok.mp h
        cases h
        exact .inr ⟨table₁, hdetect, hlay⟩

end TypeTable

-- The tables that come out of building the base types and of adding types to them.
inductive Built (heap : Heap) (symbols : SymbolTable) (arch : TargetArch) : TypeTable → Prop
  | base {lookup : List DefinedType} :
      heap.build_base_definitions symbols 0 heap.definitions = .ok lookup →
      Built heap symbols arch { TypeTable.new with lookup }
  | add {table table' table'' : TypeTable} {fuel : Nat} {concrete_type : ConcreteType} :
      Built heap symbols arch table →
      table.detect_and_resolve_type_loops_for heap fuel concrete_type = .ok table' →
      table'.lay_out_memory_for_encountered_types arch fuel = .ok table'' →
      Built heap symbols arch table''

namespace Built

variable {heap : Heap} {symbols : SymbolTable} {arch : TargetArch} {table table' : TypeTable}

end Built

end Reowolf.Types
