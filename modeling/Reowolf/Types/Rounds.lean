import Reowolf.Types.Members

namespace Reowolf.Types

namespace TypeLoopBreadcrumb

def advance (breadcrumb : TypeLoopBreadcrumb) : TypeLoopBreadcrumb :=
  { breadcrumb with next_embedded := breadcrumb.next_embedded + 1 }

@[simp] theorem advance_definition_id (breadcrumb : TypeLoopBreadcrumb) :
    breadcrumb.advance.definition_id = breadcrumb.definition_id :=
  rfl

@[simp] theorem advance_monomorph_idx (breadcrumb : TypeLoopBreadcrumb) :
    breadcrumb.advance.monomorph_idx = breadcrumb.monomorph_idx :=
  rfl

@[simp] theorem advance_next_member (breadcrumb : TypeLoopBreadcrumb) :
    breadcrumb.advance.next_member = breadcrumb.next_member :=
  rfl

@[simp] theorem advance_next_embedded (breadcrumb : TypeLoopBreadcrumb) :
    breadcrumb.advance.next_embedded = breadcrumb.next_embedded + 1 :=
  rfl

end TypeLoopBreadcrumb

namespace DefinedType

-- Whether a breadcrumb stands at a member of a type that can have members.
def Engaged (type : DefinedType) (breadcrumb : TypeLoopBreadcrumb) : Prop :=
  match type.definition with
  | .union definition =>
    ∃ monomorph, definition.monomorphs[breadcrumb.monomorph_idx]? = some monomorph ∧
      breadcrumb.next_member < monomorph.variants.length
  | .struct definition => breadcrumb.monomorph_idx < definition.monomorphs.length
  | _ => False

theorem engaged_erased (type : DefinedType) (breadcrumb : TypeLoopBreadcrumb) :
    type.erased.Engaged breadcrumb ↔ type.Engaged breadcrumb := by
  unfold erased
  split
  case h_1 definition hd =>
    simp only [Engaged, hd, List.getElem?_map, Option.map_eq_some_iff]
    constructor
    case mp =>
      rintro ⟨_, ⟨monomorph, hm, rfl⟩, hlt⟩
      exact ⟨monomorph, hm, by simpa [UnionMonomorph.erased] using hlt⟩
    case mpr =>
      rintro ⟨monomorph, hm, hlt⟩
      exact ⟨_, ⟨monomorph, hm, rfl⟩, by simpa [UnionMonomorph.erased] using hlt⟩
  case h_2 definition hd => simp [Engaged, hd]
  case h_3 => rfl

theorem engaged_advance (type : DefinedType) (breadcrumb : TypeLoopBreadcrumb) :
    type.Engaged breadcrumb.advance ↔ type.Engaged breadcrumb := by
  simp [Engaged]

theorem length_remaining_advance_le (type : DefinedType) (breadcrumb : TypeLoopBreadcrumb) :
    (type.remaining breadcrumb.advance).length ≤ (type.remaining breadcrumb).length := by
  unfold remaining
  split
  case h_1 definition _ =>
    cases hm : definition.monomorphs[breadcrumb.monomorph_idx]? with
    | none => simp [hm]
    | some monomorph =>
      simpa [hm] using length_remaining_embedded_succ_le breadcrumb.next_member
        breadcrumb.next_embedded monomorph.variants
  case h_2 => exact Nat.le_refl _
  case h_3 => exact Nat.le_refl _

end DefinedType

-- To replace an element by one that looks the same does not change what the list looks like.
theorem map_set_of_eq {α β : Type*} {f : α → β} {as : List α} {i : Nat} {a a' : α}
    (ha : as[i]? = some a) (h : f a' = f a) : (as.set i a').map f = as.map f := by
  obtain ⟨hlt, hget⟩ := List.getElem?_eq_some_iff.mp ha
  rw [List.map_set, h, ← hget, ← List.getElem_map f (h := by simpa using hlt), List.set_getElem_self]

-- Two tables with the same definitions and the same monomorphs, which may differ in the variants that
-- live on the heap and in the memory layout.
def SameTypes (lookup lookup' : List DefinedType) : Prop :=
  lookup'.map DefinedType.erased = lookup.map DefinedType.erased

namespace SameTypes

variable {lookup lookup' lookup'' : List DefinedType}

theorem refl (lookup : List DefinedType) : SameTypes lookup lookup :=
  rfl

theorem symm (h : SameTypes lookup lookup') : SameTypes lookup' lookup :=
  Eq.symm h

theorem trans (h : SameTypes lookup lookup') (h' : SameTypes lookup' lookup'') :
    SameTypes lookup lookup'' :=
  Eq.trans h' h

theorem getElem?_eq (h : SameTypes lookup lookup') (id : DefinitionId) :
    lookup'[id]?.map DefinedType.erased = lookup[id]?.map DefinedType.erased := by
  simpa using congrArg (·[id]?) h

theorem exists_getElem? (h : SameTypes lookup lookup') {id : DefinitionId} {type : DefinedType}
    (ht : lookup[id]? = some type) :
    ∃ type', lookup'[id]? = some type' ∧ type'.erased = type.erased := by
  have := h.getElem?_eq id
  rw [ht, Option.map_some, Option.map_eq_some_iff] at this
  exact this

theorem set {id : DefinitionId} {type type' : DefinedType} (ht : lookup[id]? = some type)
    (h : type'.erased = type.erased) : SameTypes lookup (lookup.set id type') :=
  map_set_of_eq ht h

-- What does not depend on the marks and the layout of a type is the same in both tables.
theorem congr {α : Type*} (h : SameTypes lookup lookup') {f : DefinedType → α}
    (hf : ∀ type, f type.erased = f type) (id : DefinitionId) :
    lookup'[id]?.map f = lookup[id]?.map f := by
  have hcomp : f = f ∘ DefinedType.erased := funext fun type => (hf type).symm
  rw [hcomp, ← Option.map_map, ← Option.map_map, h.getElem?_eq]

end SameTypes

def is_union_at (lookup : List DefinedType) (id : DefinitionId) : Bool :=
  (lookup[id]?.map DefinedType.is_union).getD false

def EngagedAt (lookup : List DefinedType) (breadcrumb : TypeLoopBreadcrumb) : Prop :=
  ∃ type, lookup[breadcrumb.definition_id]? = some type ∧ type.Engaged breadcrumb

namespace SameTypes

variable {lookup lookup' : List DefinedType}

theorem is_union_at_eq (h : SameTypes lookup lookup') (id : DefinitionId) :
    is_union_at lookup' id = is_union_at lookup id := by
  rw [is_union_at, is_union_at, h.congr DefinedType.erased_is_union]

theorem remaining_members_eq (h : SameTypes lookup lookup') (breadcrumb : TypeLoopBreadcrumb) :
    remaining_members lookup' breadcrumb = remaining_members lookup breadcrumb := by
  have hc := h.congr (f := fun type => (type.remaining breadcrumb).map MonomorphMember.concrete_type)
    (fun type => by rw [type.remaining_erased, map_concrete_type_erased]) breadcrumb.definition_id
  unfold remaining_members
  cases ht : lookup[breadcrumb.definition_id]? <;> cases ht' : lookup'[breadcrumb.definition_id]? <;>
    simp_all

theorem engagedAt (h : SameTypes lookup lookup') {breadcrumb : TypeLoopBreadcrumb}
    (he : EngagedAt lookup breadcrumb) : EngagedAt lookup' breadcrumb := by
  obtain ⟨type, ht, he⟩ := he
  obtain ⟨type', ht', hu⟩ := h.exists_getElem? ht
  refine ⟨type', ht', ?_⟩
  rwa [← type'.engaged_erased, hu, type.engaged_erased]

end SameTypes

theorem EngagedAt.advance {lookup : List DefinedType} {breadcrumb : TypeLoopBreadcrumb}
    (h : EngagedAt lookup breadcrumb) : EngagedAt lookup breadcrumb.advance := by
  obtain ⟨type, ht, he⟩ := h
  exact ⟨type, ht, (type.engaged_advance breadcrumb).mpr he⟩

theorem length_remaining_members_advance_le (lookup : List DefinedType)
    (breadcrumb : TypeLoopBreadcrumb) :
    (remaining_members lookup breadcrumb.advance).length ≤
      (remaining_members lookup breadcrumb).length := by
  simp only [remaining_members, TypeLoopBreadcrumb.advance_definition_id]
  cases lookup[breadcrumb.definition_id]? with
  | none      => exact Nat.le_refl _
  | some type => simpa using type.length_remaining_advance_le breadcrumb

namespace UnionType

theorem mark_variant_erased {definition definition' : UnionType} {breadcrumb : TypeLoopBreadcrumb}
    (h : definition.mark_variant breadcrumb = .ok definition') :
    definition' = { definition with monomorphs := definition'.monomorphs } ∧
      definition'.monomorphs.map UnionMonomorph.erased =
        definition.monomorphs.map UnionMonomorph.erased := by
  unfold mark_variant at h
  split at h
  case h_1 => cases h
  case h_2 monomorph hm =>
    split at h
    case h_1 => cases h
    case h_2 variant hv =>
      cases h
      refine ⟨rfl, map_set_of_eq hm ?_⟩
      exact congrArg (UnionMonomorph.mk _ · _ _ _ _) (map_set_of_eq hv rfl)

theorem exists_mark_variant {definition : UnionType} {breadcrumb : TypeLoopBreadcrumb}
    {monomorph : UnionMonomorph} (hm : definition.monomorphs[breadcrumb.monomorph_idx]? = some monomorph)
    (hv : breadcrumb.next_member < monomorph.variants.length) :
    ∃ definition', definition.mark_variant breadcrumb = .ok definition' := by
  simp [mark_variant, hm, List.getElem?_eq_getElem hv]

end UnionType

-- A union among the breadcrumbs of a type loop advances.
def close_breadcrumb (lookup : List DefinedType) (breadcrumb : TypeLoopBreadcrumb) : TypeLoopBreadcrumb :=
  if is_union_at lookup breadcrumb.definition_id then breadcrumb.advance else breadcrumb

def loop_member (lookup : List DefinedType) (breadcrumb : TypeLoopBreadcrumb) : TypeLoopEntry :=
  ⟨breadcrumb.definition_id, breadcrumb.monomorph_idx, is_union_at lookup breadcrumb.definition_id⟩

theorem close_type_loop_cases {lookup lookup' : List DefinedType}
    {breadcrumbs breadcrumbs' : List TypeLoopBreadcrumb} {loop_members : List TypeLoopEntry}
    (h : close_type_loop lookup breadcrumbs = .ok (lookup', breadcrumbs', loop_members)) :
    SameTypes lookup lookup' ∧ breadcrumbs' = breadcrumbs.map (close_breadcrumb lookup) ∧
      loop_members = breadcrumbs.map (loop_member lookup) := by
  induction breadcrumbs generalizing lookup breadcrumbs' loop_members with
  | nil =>
    cases h
    exact ⟨.refl _, rfl, rfl⟩
  | cons breadcrumb breadcrumbs ih =>
    unfold close_type_loop at h
    split at h
    case h_1 => cases h
    case h_2 entry he =>
      split at h
      case h_1 definition hd =>
        obtain ⟨definition', hmark, h⟩ := Except.bind_eq_ok.mp h
        obtain ⟨⟨lookup₂, breadcrumbs₂, members₂⟩, hclose, h⟩ := Except.bind_eq_ok.mp h
        cases h
        obtain ⟨hdef, hmonos⟩ := UnionType.mark_variant_erased hmark
        have hsame : SameTypes lookup
            (lookup.set breadcrumb.definition_id { entry with definition := .union definition' }) := by
          refine .set he ?_
          rw [hdef]
          simp only [DefinedType.erased, hd, hmonos]
        obtain ⟨hs, hb, hm⟩ := ih hclose
        have hu : is_union_at lookup breadcrumb.definition_id = true := by
          simp [is_union_at, he, DefinedType.is_union, hd]
        refine ⟨hsame.trans hs, ?_, ?_⟩
        · simp [hb, close_breadcrumb, hu, hsame.is_union_at_eq, TypeLoopBreadcrumb.advance]
        · simp [hm, loop_member, hu, hsame.is_union_at_eq]
      case h_2 hd =>
        obtain ⟨⟨lookup₂, breadcrumbs₂, members₂⟩, hclose, h⟩ := Except.bind_eq_ok.mp h
        cases h
        obtain ⟨hs, hb, hm⟩ := ih hclose
        have hu : is_union_at lookup breadcrumb.definition_id = false := by
          simp only [is_union_at, he, Option.map_some, Option.getD_some, DefinedType.is_union]
        refine ⟨hs, ?_, ?_⟩
        · simp [hb, close_breadcrumb, hu]
        · simp [hm, loop_member, hu]

theorem exists_close_type_loop {lookup : List DefinedType} {breadcrumbs : List TypeLoopBreadcrumb}
    (h : ∀ breadcrumb ∈ breadcrumbs, EngagedAt lookup breadcrumb) :
    ∃ result, close_type_loop lookup breadcrumbs = .ok result := by
  induction breadcrumbs generalizing lookup with
  | nil => exact ⟨_, rfl⟩
  | cons breadcrumb breadcrumbs ih =>
    obtain ⟨entry, he, hengaged⟩ := h breadcrumb (by simp)
    have hrest := fun b hb => h b (List.mem_cons_of_mem _ hb)
    unfold close_type_loop
    simp only [he]
    split
    case h_1 definition hd =>
      simp only [DefinedType.Engaged, hd] at hengaged
      obtain ⟨monomorph, hm, hlt⟩ := hengaged
      obtain ⟨definition', hmark⟩ := UnionType.exists_mark_variant hm hlt
      obtain ⟨hdef, hmonos⟩ := UnionType.mark_variant_erased hmark
      have hsame : SameTypes lookup
          (lookup.set breadcrumb.definition_id { entry with definition := .union definition' }) := by
        refine .set he ?_
        rw [hdef]
        simp only [DefinedType.erased, hd, hmonos]
      obtain ⟨result, hr⟩ := ih fun b hb => hsame.engagedAt (hrest b hb)
      simp [hmark, hr, bind, Except.bind]
    case h_2 =>
      obtain ⟨result, hr⟩ := ih hrest
      simp [hr, bind, Except.bind]

namespace TypeTable

variable {heap : Heap} {table table' : TypeTable}

-- What there is to say about a member: it is builtin, it is new, it is on the way or it exists.
theorem check_member_cases {concrete_type : ConcreteType} {result : TypeLoopResult}
    (h : table.check_member_for_type_loops concrete_type = .ok result) :
    ∃ part parts, concrete_type = part :: parts ∧
      ((part.definition_id = none ∧ result = .typeExists) ∨
        ∃ definition_id type, part.definition_id = some definition_id ∧
          table.lookup[definition_id]? = some type ∧
          ((type.get_monomorph_index concrete_type = none ∧
              result = .pushBreadcrumb definition_id concrete_type) ∨
            ∃ mono_idx, type.get_monomorph_index concrete_type = some mono_idx ∧
              ((∃ first_idx breadcrumb, table.type_loop_breadcrumbs[first_idx]? = some breadcrumb ∧
                  breadcrumb.definition_id = definition_id ∧ breadcrumb.monomorph_idx = mono_idx ∧
                  result = .typeLoop first_idx) ∨
                (result = .typeExists ∧ ∀ breadcrumb ∈ table.type_loop_breadcrumbs,
                  ¬(breadcrumb.definition_id = definition_id ∧ breadcrumb.monomorph_idx = mono_idx))))) := by
  unfold check_member_for_type_loops at h
  split at h
  case h_1 => cases h
  case h_2 part parts =>
    refine ⟨part, parts, rfl, ?_⟩
    split at h
    case h_1 hid =>
      cases h
      exact .inl ⟨hid, rfl⟩
    case h_2 definition_id hid =>
      split at h
      case h_1 => cases h
      case h_2 type ht =>
        refine .inr ⟨definition_id, type, hid, ht, ?_⟩
        split at h
        case h_1 hnone =>
          cases h
          exact .inl ⟨hnone, rfl⟩
        case h_2 mono_idx hsome =>
          refine .inr ⟨mono_idx, hsome, ?_⟩
          split at h
          case h_1 first_idx hfind =>
            cases h
            obtain ⟨hlt, hp, _⟩ := List.findIdx?_eq_some_iff_getElem.mp hfind
            simp only [decide_eq_true_eq] at hp
            exact .inl ⟨first_idx, _, List.getElem?_eq_getElem hlt, hp.left, hp.right, rfl⟩
          case h_2 hfind =>
            cases h
            refine .inr ⟨rfl, fun breadcrumb hb => ?_⟩
            simpa using List.findIdx?_eq_none_iff.mp hfind breadcrumb hb

-- The outcome depends on the monomorphs that there are, and on those on the way.
theorem check_member_congr (hs : SameTypes table.lookup table'.lookup)
    (hb : table'.type_loop_breadcrumbs.map (fun b => (b.definition_id, b.monomorph_idx)) =
      table.type_loop_breadcrumbs.map (fun b => (b.definition_id, b.monomorph_idx)))
    (concrete_type : ConcreteType) :
    table'.check_member_for_type_loops concrete_type = table.check_member_for_type_loops concrete_type := by
  have hfind (definition_id : DefinitionId) (mono_idx : Nat) :
      table'.type_loop_breadcrumbs.findIdx? (fun b => b.definition_id = definition_id ∧
        b.monomorph_idx = mono_idx) =
      table.type_loop_breadcrumbs.findIdx? (fun b => b.definition_id = definition_id ∧
        b.monomorph_idx = mono_idx) := by
    have hmap (breadcrumbs : List TypeLoopBreadcrumb) :
        breadcrumbs.findIdx? (fun b => b.definition_id = definition_id ∧ b.monomorph_idx = mono_idx) =
          (breadcrumbs.map fun b => (b.definition_id, b.monomorph_idx)).findIdx?
            (fun (id, idx) => id = definition_id ∧ idx = mono_idx) := by
      simp [List.findIdx?_map, Function.comp_def]
    rw [hmap, hmap, hb]
  unfold check_member_for_type_loops
  cases concrete_type with
  | nil => rfl
  | cons part parts =>
    cases hid : part.definition_id with
    | none => simp only [hid]
    | some definition_id =>
      have hc := hs.congr (f := fun type => type.get_monomorph_index (part :: parts))
        (fun type => type.get_monomorph_index_erased _) definition_id
      simp only [hid]
      cases ht : table.lookup[definition_id]? <;> cases ht' : table'.lookup[definition_id]?
      case none.none => rfl
      case none.some => simp [ht, ht'] at hc
      case some.none => simp [ht, ht'] at hc
      case some.some type type' =>
        simp only [ht, ht', Option.map_some, Option.some.injEq] at hc
        simp only [hc, hfind]

-- The members of a type are looked at from the position of its breadcrumb on.
theorem resolve_members_scanned {breadcrumb breadcrumb' : TypeLoopBreadcrumb} {result : TypeLoopResult}
    (h : table.resolve_members breadcrumb = .ok (breadcrumb', result)) :
    breadcrumb'.definition_id = breadcrumb.definition_id ∧
      breadcrumb'.monomorph_idx = breadcrumb.monomorph_idx ∧
      Scanned table (remaining_members table.lookup breadcrumb)
        (remaining_members table.lookup breadcrumb') result ∧
      (result ≠ .typeExists → EngagedAt table.lookup breadcrumb' ∧
        (is_union_at table.lookup breadcrumb'.definition_id →
          remaining_members table.lookup breadcrumb'.advance =
            (remaining_members table.lookup breadcrumb').tail)) := by
  unfold resolve_members at h
  cases ht : table.lookup[breadcrumb.definition_id]? with
  | none => simp [ht] at h
  | some poly_type =>
    simp only [ht] at h
    split at h
    case h_1 definition hd =>
      cases h
      refine ⟨rfl, rfl, .refl ?_, fun hne => absurd rfl hne⟩
      simp [remaining_members, ht, DefinedType.remaining, hd, StopsAt]
    case h_2 definition hd =>
      cases hm : definition.monomorphs[breadcrumb.monomorph_idx]? with
      | none => simp [hm] at h
      | some monomorph =>
        simp only [hm] at h
        obtain ⟨⟨next_member, next_embedded, result⟩, hr, h⟩ := Except.bind_eq_ok.mp h
        cases h
        obtain ⟨k, hk, hs, hlt⟩ := check_variants_scanned hr
        rw [remaining_embedded_drop, remaining_embedded_drop, ← hk] at hs
        have hvariant (hne : result ≠ .typeExists) : ∃ variant,
            monomorph.variants[next_member]? = some variant ∧ next_embedded < variant.embedded.length := by
          simpa [List.getElem?_drop, hk] using hlt hne
        refine ⟨rfl, rfl, ?_, fun hne => ⟨⟨poly_type, ht, ?_⟩, fun _ => ?_⟩⟩
        · simpa [remaining_members, ht, DefinedType.remaining, hd, hm] using hs
        · obtain ⟨variant, hv, _⟩ := hvariant hne
          simp only [DefinedType.Engaged, hd]
          exact ⟨monomorph, hm, (List.getElem?_eq_some_iff.mp hv).fst⟩
        · obtain ⟨variant, hv, he⟩ := hvariant hne
          simp [remaining_members, ht, DefinedType.remaining, hd, hm, remaining_embedded_succ hv he,
            List.map_tail]
    case h_3 definition hd =>
      cases hm : definition.monomorphs[breadcrumb.monomorph_idx]? with
      | none => simp [hm] at h
      | some monomorph =>
        simp only [hm] at h
        obtain ⟨⟨next_member, result⟩, hr, h⟩ := Except.bind_eq_ok.mp h
        cases h
        obtain ⟨k, hk, hs⟩ := check_members_scanned hr
        rw [List.drop_drop, ← hk] at hs
        refine ⟨rfl, rfl, ?_, fun _ => ⟨⟨poly_type, ht, ?_⟩, fun hu => ?_⟩⟩
        · simpa [remaining_members, ht, DefinedType.remaining, hd, hm] using hs
        · simpa [DefinedType.Engaged, hd] using (List.getElem?_eq_some_iff.mp hm).fst
        · simp [is_union_at, ht, DefinedType.is_union, hd] at hu
    case h_4 => cases h
    case h_5 => cases h

-- What a round of the main resolving loop can do.
theorem next_cases (h : table.next heap = some (.ok table')) :
    ∃ below breadcrumb breadcrumb' result,
      table.type_loop_breadcrumbs = below ++ [breadcrumb] ∧
      table.resolve_members breadcrumb = .ok (breadcrumb', result) ∧
      ((result = .typeExists ∧ table' = { table with type_loop_breadcrumbs := below }) ∨
        (∃ definition_id concrete_type, result = .pushBreadcrumb definition_id concrete_type ∧
          { table with type_loop_breadcrumbs := below ++ [breadcrumb']
            : TypeTable }.handle_new_breadcrumb_for_type_loops definition_id concrete_type = .ok table') ∨
        (∃ first_idx, result = .typeLoop first_idx ∧
          { table with type_loop_breadcrumbs := below ++ [breadcrumb']
            : TypeTable }.handle_type_loop heap first_idx = .ok table')) := by
  obtain ⟨breadcrumb, hlast, h⟩ := Option.map_eq_some_iff.mp h
  have hb : table.type_loop_breadcrumbs = table.type_loop_breadcrumbs.dropLast ++ [breadcrumb] :=
    (List.dropLast_append_getLast? breadcrumb hlast).symm
  obtain ⟨⟨breadcrumb', result⟩, hr, h⟩ := Except.bind_eq_ok.mp h
  refine ⟨_, breadcrumb, breadcrumb', result, hb, hr, ?_⟩
  cases result with
  | typeExists =>
    cases h
    exact .inl ⟨rfl, rfl⟩
  | pushBreadcrumb definition_id concrete_type => exact .inr (.inl ⟨_, _, rfl, h⟩)
  | typeLoop first_idx => exact .inr (.inr ⟨_, rfl, h⟩)

theorem handle_new_breadcrumb_cases {definition_id : DefinitionId} {definition_type : ConcreteType}
    (h : table.handle_new_breadcrumb_for_type_loops definition_id definition_type = .ok table') :
    ∃ type type' monomorph_idx, table.lookup[definition_id]? = some type ∧
      type.push_monomorph definition_type = .ok (type', monomorph_idx) ∧
      table' = { table with
        lookup                := table.lookup.set definition_id type'
        encountered_types     := table.encountered_types ++ [⟨definition_id, monomorph_idx, type.is_union⟩]
        type_loop_breadcrumbs := table.type_loop_breadcrumbs ++ [⟨definition_id, monomorph_idx, 0, 0⟩]
      } := by
  unfold handle_new_breadcrumb_for_type_loops at h
  cases ht : table.lookup[definition_id]? with
  | none => simp [ht] at h
  | some type =>
    simp only [ht] at h
    obtain ⟨⟨type', monomorph_idx⟩, hp, h⟩ := Except.bind_eq_ok.mp h
    cases h
    exact ⟨type, type', monomorph_idx, rfl, hp, rfl⟩

theorem handle_type_loop_cases {first_idx : Nat} (h : table.handle_type_loop heap first_idx = .ok table') :
    ∃ lookup, SameTypes table.lookup lookup ∧
      close_type_loop table.lookup (table.type_loop_breadcrumbs.drop first_idx) =
        .ok (lookup, (table.type_loop_breadcrumbs.drop first_idx).map (close_breadcrumb table.lookup),
          (table.type_loop_breadcrumbs.drop first_idx).map (loop_member table.lookup)) ∧
      (∃ breadcrumb ∈ table.type_loop_breadcrumbs.drop first_idx,
        is_union_at table.lookup breadcrumb.definition_id) ∧
      table' = { table with
        lookup
        type_loop_breadcrumbs := table.type_loop_breadcrumbs.take first_idx ++
          (table.type_loop_breadcrumbs.drop first_idx).map (close_breadcrumb table.lookup)
        type_loops            := table.type_loops ++
          [⟨(table.type_loop_breadcrumbs.drop first_idx).map (loop_member table.lookup)⟩]
      } := by
  obtain ⟨⟨lookup, breadcrumbs, loop_members⟩, hclose, h⟩ := Except.bind_eq_ok.mp h
  obtain ⟨hs, hb, hm⟩ := close_type_loop_cases hclose
  subst hb hm
  dsimp only at h
  split at h
  case isFalse => cases h
  case isTrue hany =>
    cases h
    refine ⟨lookup, hs, hclose, ?_, rfl⟩
    obtain ⟨entry, hentry, hu⟩ := List.any_eq_true.mp hany
    obtain ⟨breadcrumb, hb, rfl⟩ := List.mem_map.mp hentry
    exact ⟨breadcrumb, hb, hu⟩

end TypeTable

end Reowolf.Types
