import Reowolf.Types.PlainTypes
import Reowolf.Library.Halting

namespace Reowolf.Types

open Relation (ReflTransGen)

-- The definition has a monomorph, which is its only one.
def Instantiated (lookup : List DefinedType) (definition_id : DefinitionId) (monomorph_idx : Nat) :
    Prop :=
  monomorph_idx = 0 ∧ ∃ type, lookup[definition_id]? = some type ∧ type.is_data_type ∧
    0 < type.num_monomorphs

theorem SameTypes.instantiated {lookup lookup' : List DefinedType} (h : SameTypes lookup lookup')
    {definition_id : DefinitionId} {monomorph_idx : Nat}
    (hi : Instantiated lookup definition_id monomorph_idx) :
    Instantiated lookup' definition_id monomorph_idx := by
  obtain ⟨hz, type, ht, hd, hn⟩ := hi
  obtain ⟨type', ht', he⟩ := h.exists_getElem? ht
  refine ⟨hz, type', ht', ?_, ?_⟩
  · rw [← type'.erased_is_data_type, he, type.erased_is_data_type, hd]
  · rwa [← type'.erased_num_monomorphs, he, type.erased_num_monomorphs]

-- A definition that becomes instantiated is not one that has been.
theorem Instantiated.ne {lookup : List DefinedType} {definition_id id : DefinitionId}
    {monomorph_idx : Nat} {type : DefinedType} (hi : Instantiated lookup definition_id monomorph_idx)
    (ht : lookup[id]? = some type) (hn : type.num_monomorphs = 0) : id ≠ definition_id := by
  obtain ⟨_, type', ht', _, hn'⟩ := hi
  intro heq
  have : type = type' := by simpa [heq, ht'] using ht.symm
  subst this
  omega

-- What holds between two rounds of the main resolving loop.
structure Detecting (table : TypeTable) : Prop where
  plain        : PlainTable table.lookup
  instantiated : ∀ breadcrumb ∈ table.type_loop_breadcrumbs,
    Instantiated table.lookup breadcrumb.definition_id breadcrumb.monomorph_idx
  engaged      : ∀ breadcrumb ∈ table.type_loop_breadcrumbs.dropLast, EngagedAt table.lookup breadcrumb
  loops        : ∀ type_loop ∈ table.type_loops, ∃ breadcrumbs, breadcrumbs ≠ [] ∧
    type_loop.members = breadcrumbs.map (loop_member table.lookup) ∧
    ∀ breadcrumb ∈ breadcrumbs, EngagedAt table.lookup breadcrumb ∧
      Instantiated table.lookup breadcrumb.definition_id breadcrumb.monomorph_idx

theorem SameTypes.loop_member_eq {lookup lookup' : List DefinedType} (h : SameTypes lookup lookup') :
    loop_member lookup' = loop_member lookup :=
  funext fun breadcrumb => by simp only [loop_member, h.is_union_at_eq]

namespace TypeTable

variable {heap : Heap} {table table' : TypeTable}

theorem exists_check_member {concrete_type : ConcreteType}
    (h : Resolvable table.lookup concrete_type) :
    ∃ result, table.check_member_for_type_loops concrete_type = .ok result := by
  cases concrete_type with
  | nil => exact absurd h id
  | cons part parts =>
    unfold check_member_for_type_loops
    cases hid : part.definition_id with
    | none =>
      simp only [hid]
      exact ⟨_, rfl⟩
    | some definition_id =>
      obtain ⟨type, ht, _⟩ := h definition_id hid
      simp only [hid, ht]
      split
      · exact ⟨_, rfl⟩
      · split
        · exact ⟨_, rfl⟩
        · exact ⟨_, rfl⟩

theorem exists_check_members {members : List MonomorphMember}
    (h : ∀ member ∈ members, Resolvable table.lookup member.concrete_type) (n : Nat) :
    ∃ out, table.check_members n members = .ok out := by
  induction members generalizing n with
  | nil => exact ⟨_, rfl⟩
  | cons member members ih =>
    obtain ⟨result, hr⟩ := exists_check_member (h member (by simp))
    obtain ⟨out, ho⟩ := ih (fun m hm => h m (List.mem_cons_of_mem _ hm)) (n + 1)
    simp only [check_members, hr, bind, Except.bind]
    cases result with
    | typeExists => exact ⟨out, ho⟩
    | _          => exact ⟨_, rfl⟩

theorem exists_check_variants {variants : List UnionMonomorphVariant}
    (h : ∀ member ∈ variants.flatMap UnionMonomorphVariant.embedded,
      Resolvable table.lookup member.concrete_type) (n e : Nat) :
    ∃ out, table.check_variants n e variants = .ok out := by
  induction variants generalizing n e with
  | nil => exact ⟨_, rfl⟩
  | cons variant variants ih =>
    rw [List.flatMap_cons] at h
    obtain ⟨⟨e', result⟩, hr⟩ : ∃ out,
        table.check_members e (variant.embedded.drop e) = .ok out :=
      exists_check_members (fun m hm => h m (List.mem_append_left _ (List.mem_of_mem_drop hm))) e
    obtain ⟨out, ho⟩ := ih (fun m hm => h m (List.mem_append_right _ hm)) (n + 1) 0
    simp only [check_variants, hr, bind, Except.bind]
    cases result with
    | typeExists => exact ⟨out, ho⟩
    | _          => exact ⟨_, rfl⟩

theorem exists_resolve_members {breadcrumb : TypeLoopBreadcrumb} (hp : PlainTable table.lookup)
    (hi : Instantiated table.lookup breadcrumb.definition_id breadcrumb.monomorph_idx) :
    ∃ out, table.resolve_members breadcrumb = .ok out := by
  obtain ⟨hz, type, ht, hd, hn⟩ := hi
  have hmembers := hp.members ht breadcrumb.monomorph_idx
  unfold resolve_members
  simp only [ht]
  cases hdef : type.definition with
  | enum definition => exact ⟨_, rfl⟩
  | union definition =>
    simp only [DefinedType.num_monomorphs, hdef] at hn
    obtain ⟨monomorph, hm⟩ : ∃ monomorph,
        definition.monomorphs[breadcrumb.monomorph_idx]? = some monomorph :=
      ⟨_, List.getElem?_eq_getElem (hz ▸ hn)⟩
    simp only [DefinedType.members, DefinedType.remaining, hdef, hm, remaining_embedded_zero] at hmembers
    obtain ⟨out, ho⟩ : ∃ out, table.check_variants breadcrumb.next_member breadcrumb.next_embedded
        (monomorph.variants.drop breadcrumb.next_member) = .ok out := by
      refine exists_check_variants (fun m hm => hmembers m ?_) _ _
      obtain ⟨variant, hv, hm⟩ := List.mem_flatMap.mp hm
      exact List.mem_flatMap.mpr ⟨variant, List.mem_of_mem_drop hv, hm⟩
    simp [hm, ho, bind, Except.bind]
  | struct definition =>
    simp only [DefinedType.num_monomorphs, hdef] at hn
    obtain ⟨monomorph, hm⟩ : ∃ monomorph,
        definition.monomorphs[breadcrumb.monomorph_idx]? = some monomorph :=
      ⟨_, List.getElem?_eq_getElem (hz ▸ hn)⟩
    simp only [DefinedType.members, DefinedType.remaining, hdef, hm, List.drop_zero] at hmembers
    obtain ⟨out, ho⟩ : ∃ out, table.check_members breadcrumb.next_member
        (monomorph.fields.drop breadcrumb.next_member) = .ok out :=
      exists_check_members (fun m hm => hmembers m (List.mem_of_mem_drop hm)) _
    simp [hm, ho, bind, Except.bind]
  | _ => simp [DefinedType.is_data_type, hdef] at hd

-- A member that is not there yet is of a data type that has no monomorph.
theorem pushed_type (hp : PlainTable table.lookup) {concrete_type pushed_type : ConcreteType}
    {definition_id : DefinitionId} (hr : Resolvable table.lookup concrete_type)
    (h : table.check_member_for_type_loops concrete_type =
      .ok (.pushBreadcrumb definition_id pushed_type)) :
    ∃ type, table.lookup[definition_id]? = some type ∧ type.is_data_type ∧ type.num_monomorphs = 0 := by
  obtain ⟨part, parts, hct, hcases⟩ := check_member_cases h
  subst hct
  match hcases with
  | .inr ⟨id, type, hid, ht, .inl ⟨hnone, heq⟩⟩ =>
    cases heq
    obtain ⟨type', ht', hd⟩ := hr _ hid
    have : type' = type := by simpa [ht] using ht'.symm
    subst this
    rw [DefinedType.get_monomorph_index_of_plain (hp.types ht hd).poly_vars hd] at hnone
    refine ⟨type', ht, hd, ?_⟩
    by_contra hne
    simp [hne] at hnone
  | .inl ⟨_, heq⟩ => cases heq
  | .inr ⟨_, _, _, _, .inr ⟨_, _, .inl ⟨_, _, _, _, _, heq⟩⟩⟩ => cases heq
  | .inr ⟨_, _, _, _, .inr ⟨_, _, .inr ⟨heq, _⟩⟩⟩ => cases heq

end TypeTable

theorem DefinedType.exists_push_monomorph {lookup : List DefinedType} {type : DefinedType}
    (hd : type.is_data_type) (hp : type.Plain lookup) (concrete_type : ConcreteType) :
    ∃ out, type.push_monomorph concrete_type = .ok out := by
  have hc : ∀ parser_type ∈ type.member_types,
      ∃ ct, construct_concrete_type parser_type concrete_type = some ct := by
    intro parser_type hm
    obtain ⟨ct, hct, _⟩ := hp.members parser_type hm concrete_type
    exact ⟨ct, hct⟩
  unfold push_monomorph
  cases hdef : type.definition with
  | enum definition => exact ⟨_, rfl⟩
  | union definition =>
    simp only [member_types, hdef] at hc
    obtain ⟨variants, hv⟩ := exists_construct_mono_variants hc
    simp [hv, bind, Except.bind]
  | struct definition =>
    simp only [member_types, hdef] at hc
    obtain ⟨fields, hf⟩ := exists_construct_concrete_types hc
    simp [hf, bind, Except.bind]
  | _ => simp [is_data_type, hdef] at hd

theorem forall₂_exists_left {α β : Type*} {R : α → β → Prop} {as : List α} {bs : List β}
    (h : List.Forall₂ R as bs) {b : β} (hb : b ∈ bs) : ∃ a ∈ as, R a b := by
  induction h with
  | nil => simp at hb
  | @cons a b' as bs hr _ ih =>
    cases List.mem_cons.mp hb with
    | inl heq => exact ⟨a, by simp, heq ▸ hr⟩
    | inr hb =>
      obtain ⟨a, ha, hr⟩ := ih hb
      exact ⟨a, List.mem_cons_of_mem _ ha, hr⟩

theorem DefinedType.Pushes.plain_members {lookup : List DefinedType} {type type' : DefinedType}
    {concrete_type : ConcreteType} {monomorph_idx : Nat}
    (h : type.Pushes concrete_type type' monomorph_idx) (hp : type.Plain lookup) :
    ∀ member ∈ type'.members monomorph_idx, Resolvable lookup member.concrete_type := by
  intro member hm
  obtain ⟨parser_type, hpt, hc⟩ := forall₂_exists_left h.members hm
  obtain ⟨ct, hct, hr⟩ := hp.members parser_type hpt concrete_type
  have : ct = member.concrete_type := by simpa [hct] using hc
  exact this ▸ hr

-- A new monomorph of a definition that has had none.
structure Pushed (table table' : TypeTable) (definition_id : DefinitionId) : Prop where
  plain     : PlainTable table'.lookup
  new       : ∃ type type', table.lookup[definition_id]? = some type ∧ type.is_data_type ∧
    type.num_monomorphs = 0 ∧ 0 < type'.num_monomorphs ∧ type'.base = type.base ∧
    table'.lookup = table.lookup.set definition_id type' ∧
    (type'.members 0).length = type.member_types.length
  breadcrumbs : table'.type_loop_breadcrumbs = table.type_loop_breadcrumbs ++ [⟨definition_id, 0, 0, 0⟩]
  type_loops  : table'.type_loops = table.type_loops

namespace TypeTable

variable {heap : Heap} {table table' : TypeTable}

theorem pushed_of_handle (hp : PlainTable table.lookup) {definition_id : DefinitionId}
    {concrete_type : ConcreteType} {type : DefinedType} (ht : table.lookup[definition_id]? = some type)
    (hd : type.is_data_type) (hn : type.num_monomorphs = 0)
    (h : table.handle_new_breadcrumb_for_type_loops definition_id concrete_type = .ok table') :
    Pushed table table' definition_id := by
  obtain ⟨type₁, type', monomorph_idx, ht₁, hpush, heq⟩ := handle_new_breadcrumb_cases h
  have : type₁ = type := by simpa [ht] using ht₁.symm
  subst this heq
  have hpushes := DefinedType.push_monomorph_cases hpush
  have hidx := hpushes.idx hn
  subst hidx
  have hplain := hp.types ht hd
  have hbase : SameBase table.lookup (table.lookup.set definition_id type') := .set ht hpushes.base
  have hlt := (List.getElem?_eq_some_iff.mp ht).fst
  constructor
  case new =>
    refine ⟨type₁, type', ht, hd, hn, ?_, hpushes.base, rfl, hpushes.members.length_eq.symm⟩
    rw [hpushes.num_monomorphs]
    omega
  case breadcrumbs => rfl
  case type_loops => rfl
  case plain =>
    constructor
    case types =>
      intro id t hget hdata
      obtain ⟨t₀, ht₀, hb⟩ := hbase.symm.exists_getElem? hget
      refine hbase.plain hb.symm (hp.types ht₀ ?_)
      rw [← t₀.base_is_data_type, hb, t.base_is_data_type, hdata]
    case members =>
      intro id t hget idx member hm
      refine hbase.resolvable ?_
      simp only [List.getElem?_set] at hget
      split at hget
      case isFalse => exact hp.members hget idx member hm
      case isTrue =>
        cases hget
        by_cases hz : idx = 0
        case pos => exact hpushes.plain_members hplain member (hz ▸ hm)
        case neg => exact hp.members ht idx member (hpushes.others idx hz ▸ hm)

end TypeTable

namespace Pushed

variable {table table' : TypeTable} {definition_id : DefinitionId}

-- A monomorph that has been there before is not affected.
theorem getElem?_eq (h : Pushed table table' definition_id) {id : DefinitionId} {idx : Nat}
    (hi : Instantiated table.lookup id idx) : table'.lookup[id]? = table.lookup[id]? := by
  obtain ⟨type, type', ht, _, hn, _, _, hset, _⟩ := h.new
  rw [hset, List.getElem?_set_ne (hi.ne ht hn)]

theorem instantiated (h : Pushed table table' definition_id) {id : DefinitionId} {idx : Nat}
    (hi : Instantiated table.lookup id idx) : Instantiated table'.lookup id idx := by
  have heq := h.getElem?_eq hi
  obtain ⟨hz, type, ht, hd, hn⟩ := hi
  exact ⟨hz, type, heq ▸ ht, hd, hn⟩

theorem instantiated_new (h : Pushed table table' definition_id) :
    Instantiated table'.lookup definition_id 0 := by
  obtain ⟨type, type', ht, hd, _, hn, hb, hset, _⟩ := h.new
  refine ⟨rfl, type', ?_, ?_, hn⟩
  · rw [hset, List.getElem?_set_self (List.getElem?_eq_some_iff.mp ht).fst]
  · rw [← type'.base_is_data_type, hb, type.base_is_data_type, hd]

theorem engagedAt (h : Pushed table table' definition_id) {breadcrumb : TypeLoopBreadcrumb}
    (hi : Instantiated table.lookup breadcrumb.definition_id breadcrumb.monomorph_idx)
    (he : EngagedAt table.lookup breadcrumb) : EngagedAt table'.lookup breadcrumb := by
  obtain ⟨type, ht, he⟩ := he
  exact ⟨type, h.getElem?_eq hi ▸ ht, he⟩

theorem remaining_members_eq (h : Pushed table table' definition_id) {breadcrumb : TypeLoopBreadcrumb}
    (hi : Instantiated table.lookup breadcrumb.definition_id breadcrumb.monomorph_idx) :
    remaining_members table'.lookup breadcrumb = remaining_members table.lookup breadcrumb := by
  rw [remaining_members, remaining_members, h.getElem?_eq hi]

theorem is_union_at_eq (h : Pushed table table' definition_id) (id : DefinitionId) :
    is_union_at table'.lookup id = is_union_at table.lookup id := by
  obtain ⟨type, type', ht, _, _, _, hb, hset, _⟩ := h.new
  have hu : type'.is_union = type.is_union := by
    rw [← type'.base_is_union, hb, type.base_is_union]
  have := map_set_of_eq ht hu
  have hid := congrArg (·[id]?) this
  simp only [List.getElem?_map] at hid
  rw [is_union_at, is_union_at, hset, hid]

end Pushed

namespace TypeTable

variable {heap : Heap} {table table' : TypeTable}

-- A round of the main resolving loop.
def Round (heap : Heap) (table table' : TypeTable) : Prop :=
  table.next heap = some (.ok table')

-- A struct is on top of the breadcrumbs, and closes a type loop that has a union in it.
def ClosesAtStruct (table : TypeTable) : Prop :=
  ∃ below breadcrumb breadcrumb' first_idx,
    table.type_loop_breadcrumbs = below ++ [breadcrumb] ∧
    table.resolve_members breadcrumb = .ok (breadcrumb', .typeLoop first_idx) ∧
    is_union_at table.lookup breadcrumb.definition_id = false ∧
    ∃ above ∈ below.drop first_idx, is_union_at table.lookup above.definition_id

end TypeTable

theorem PlainTable.remaining_members {lookup : List DefinedType} (h : PlainTable lookup)
    (breadcrumb : TypeLoopBreadcrumb) :
    ∀ concrete_type ∈ remaining_members lookup breadcrumb, Resolvable lookup concrete_type := by
  intro concrete_type hm
  unfold Types.remaining_members at hm
  split at hm
  case h_1 type ht =>
    obtain ⟨member, hmem, heq⟩ := List.mem_map.mp hm
    exact heq ▸ h.members ht _ member (DefinedType.remaining_subset_members hmem)
  case h_2 => simp at hm

theorem close_breadcrumb_definition_id (lookup : List DefinedType) (breadcrumb : TypeLoopBreadcrumb) :
    (close_breadcrumb lookup breadcrumb).definition_id = breadcrumb.definition_id := by
  unfold close_breadcrumb
  split <;> rfl

theorem close_breadcrumb_monomorph_idx (lookup : List DefinedType) (breadcrumb : TypeLoopBreadcrumb) :
    (close_breadcrumb lookup breadcrumb).monomorph_idx = breadcrumb.monomorph_idx := by
  unfold close_breadcrumb
  split <;> rfl

theorem EngagedAt.close {lookup : List DefinedType} {breadcrumb : TypeLoopBreadcrumb}
    (h : EngagedAt lookup breadcrumb) : EngagedAt lookup (close_breadcrumb lookup breadcrumb) := by
  unfold close_breadcrumb
  split
  case isTrue  => exact h.advance
  case isFalse => exact h

theorem length_remaining_members_close_le (lookup : List DefinedType) (breadcrumb : TypeLoopBreadcrumb) :
    (remaining_members lookup (close_breadcrumb lookup breadcrumb)).length ≤
      (remaining_members lookup breadcrumb).length := by
  unfold close_breadcrumb
  split
  case isTrue  => exact length_remaining_members_advance_le lookup breadcrumb
  case isFalse => exact Nat.le_refl _

namespace Detecting

variable {heap : Heap} {table table' : TypeTable}

-- The breadcrumbs with the one on top moved on.
theorem moved (h : Detecting table) {below : List TypeLoopBreadcrumb}
    {breadcrumb breadcrumb' : TypeLoopBreadcrumb} {result : TypeLoopResult}
    (hb : table.type_loop_breadcrumbs = below ++ [breadcrumb])
    (hr : table.resolve_members breadcrumb = .ok (breadcrumb', result)) (hne : result ≠ .typeExists) :
    ∀ b ∈ below ++ [breadcrumb'], EngagedAt table.lookup b ∧
      Instantiated table.lookup b.definition_id b.monomorph_idx := by
  obtain ⟨hid, hidx, _, hengaged⟩ := TypeTable.resolve_members_scanned hr
  intro b hmem
  cases List.mem_append.mp hmem with
  | inl hmem =>
    refine ⟨h.engaged b (by simpa [hb] using hmem), h.instantiated b ?_⟩
    rw [hb]
    exact List.mem_append_left _ hmem
  | inr hmem =>
    cases List.mem_singleton.mp hmem
    refine ⟨(hengaged hne).left, ?_⟩
    rw [hid, hidx]
    exact h.instantiated breadcrumb (by simp [hb])

theorem pop (h : Detecting table) {below : List TypeLoopBreadcrumb} {breadcrumb : TypeLoopBreadcrumb}
    (hb : table.type_loop_breadcrumbs = below ++ [breadcrumb]) :
    Detecting { table with type_loop_breadcrumbs := below } := by
  constructor
  case plain => exact h.plain
  case instantiated =>
    intro b hm
    apply h.instantiated
    rw [hb]
    exact List.mem_append_left _ hm
  case engaged =>
    intro b hm
    apply h.engaged
    rw [hb, List.dropLast_concat]
    exact List.dropLast_subset _ hm
  case loops => exact h.loops

theorem push (h : Detecting table) {breadcrumbs : List TypeLoopBreadcrumb} {definition_id : DefinitionId}
    (hm : ∀ b ∈ breadcrumbs, EngagedAt table.lookup b ∧
      Instantiated table.lookup b.definition_id b.monomorph_idx)
    (hp : Pushed { table with type_loop_breadcrumbs := breadcrumbs } table' definition_id) :
    Detecting table' := by
  constructor
  case plain => exact hp.plain
  case instantiated =>
    intro b hb
    rw [hp.breadcrumbs] at hb
    cases List.mem_append.mp hb with
    | inl hb => exact hp.instantiated (hm b hb).right
    | inr hb =>
      cases List.mem_singleton.mp hb
      exact hp.instantiated_new
  case engaged =>
    intro b hb
    rw [hp.breadcrumbs, List.dropLast_concat] at hb
    exact hp.engagedAt (hm b hb).right (hm b hb).left
  case loops =>
    intro type_loop hl
    rw [hp.type_loops] at hl
    obtain ⟨bs, hne, heq, hall⟩ := h.loops type_loop hl
    refine ⟨bs, hne, ?_, fun b hb => ?_⟩
    · rw [heq]
      refine List.map_congr_left fun b _ => ?_
      simp only [loop_member, hp.is_union_at_eq]
    · exact ⟨hp.engagedAt (hall b hb).right (hall b hb).left, hp.instantiated (hall b hb).right⟩

theorem close (h : Detecting table) {breadcrumbs : List TypeLoopBreadcrumb} {first_idx : Nat}
    (hne : breadcrumbs.drop first_idx ≠ [])
    (hm : ∀ b ∈ breadcrumbs, EngagedAt table.lookup b ∧
      Instantiated table.lookup b.definition_id b.monomorph_idx)
    (hc : { table with type_loop_breadcrumbs := breadcrumbs : TypeTable }.handle_type_loop heap first_idx =
      .ok table') :
    Detecting table' := by
  obtain ⟨lookup, hs, _, _, rfl⟩ := TypeTable.handle_type_loop_cases hc
  have hclosed : ∀ b ∈ breadcrumbs.take first_idx ++
      (breadcrumbs.drop first_idx).map (close_breadcrumb table.lookup),
      EngagedAt lookup b ∧ Instantiated lookup b.definition_id b.monomorph_idx := by
    intro b hb
    cases List.mem_append.mp hb with
    | inl hb =>
      obtain ⟨he, hi⟩ := hm b (List.mem_of_mem_take hb)
      exact ⟨hs.engagedAt he, hs.instantiated hi⟩
    | inr hb =>
      obtain ⟨b₀, hb₀, rfl⟩ := List.mem_map.mp hb
      obtain ⟨he, hi⟩ := hm b₀ (List.mem_of_mem_drop hb₀)
      rw [close_breadcrumb_definition_id, close_breadcrumb_monomorph_idx]
      exact ⟨hs.engagedAt he.close, hs.instantiated hi⟩
  constructor
  case plain        => exact h.plain.sameTypes hs
  case instantiated => exact fun b hb => (hclosed b hb).right
  case engaged      => exact fun b hb => (hclosed b (List.dropLast_subset _ hb)).left
  case loops =>
    intro type_loop hl
    rw [hs.loop_member_eq]
    cases List.mem_append.mp hl with
    | inl hl =>
      obtain ⟨bs, hne, heq, hall⟩ := h.loops type_loop hl
      exact ⟨bs, hne, heq, fun b hb => ⟨hs.engagedAt (hall b hb).left, hs.instantiated (hall b hb).right⟩⟩
    | inr hl =>
      cases List.mem_singleton.mp hl
      refine ⟨_, hne, rfl, fun b hb => ?_⟩
      obtain ⟨he, hi⟩ := hm b (List.mem_of_mem_drop hb)
      exact ⟨hs.engagedAt he, hs.instantiated hi⟩

end Detecting

-- What a round of the main resolving loop does, when there are no polymorphic arguments.
inductive RoundCase (heap : Heap) (table table' : TypeTable) (below : List TypeLoopBreadcrumb)
    (breadcrumb breadcrumb' : TypeLoopBreadcrumb) : TypeLoopResult → Prop
  | pop : table' = { table with type_loop_breadcrumbs := below } →
      RoundCase heap table table' below breadcrumb breadcrumb' .typeExists
  | push {definition_id concrete_type} :
      Pushed { table with type_loop_breadcrumbs := below ++ [breadcrumb'] } table' definition_id →
      RoundCase heap table table' below breadcrumb breadcrumb' (.pushBreadcrumb definition_id concrete_type)
  | close {first_idx} : first_idx ≤ below.length →
      { table with type_loop_breadcrumbs := below ++ [breadcrumb'] : TypeTable }.handle_type_loop
        heap first_idx = .ok table' →
      RoundCase heap table table' below breadcrumb breadcrumb' (.typeLoop first_idx)

namespace Detecting

variable {heap : Heap} {table table' : TypeTable}

-- The member that a scan stops at.
theorem stopped_member (h : Detecting table) {breadcrumb breadcrumb' : TypeLoopBreadcrumb}
    {result : TypeLoopResult} (hr : table.resolve_members breadcrumb = .ok (breadcrumb', result))
    (hne : result ≠ .typeExists) :
    ∃ member rest, remaining_members table.lookup breadcrumb' = member :: rest ∧
      Resolvable table.lookup member ∧ table.check_member_for_type_loops member = .ok result := by
  obtain ⟨_, _, hs, _⟩ := TypeTable.resolve_members_scanned hr
  obtain ⟨member, rest, hrest, hc⟩ := hs.exists_cons hne
  exact ⟨member, rest, hrest, h.plain.remaining_members breadcrumb' member (by simp [hrest]), hc⟩

theorem first_idx_le (h : Detecting table) {below : List TypeLoopBreadcrumb}
    {breadcrumb breadcrumb' : TypeLoopBreadcrumb} {first_idx : Nat}
    (hb : table.type_loop_breadcrumbs = below ++ [breadcrumb])
    (hr : table.resolve_members breadcrumb = .ok (breadcrumb', .typeLoop first_idx)) :
    first_idx ≤ below.length := by
  obtain ⟨member, _, _, _, hc⟩ := h.stopped_member hr (by simp)
  obtain ⟨_, _, _, hcases⟩ := TypeTable.check_member_cases hc
  match hcases with
  | .inl ⟨_, heq⟩ => cases heq
  | .inr ⟨_, _, _, _, .inl ⟨_, heq⟩⟩ => cases heq
  | .inr ⟨_, _, _, _, .inr ⟨_, _, .inr ⟨heq, _⟩⟩⟩ => cases heq
  | .inr ⟨_, _, _, _, .inr ⟨_, _, .inl ⟨first_idx, _, hget, _, _, heq⟩⟩⟩ =>
    cases heq
    have hlt := (List.getElem?_eq_some_iff.mp hget).fst
    rw [hb, List.length_append, List.length_singleton] at hlt
    omega

theorem round_cases (h : Detecting table) (hround : TypeTable.Round heap table table') :
    ∃ below breadcrumb breadcrumb' result, table.type_loop_breadcrumbs = below ++ [breadcrumb] ∧
      table.resolve_members breadcrumb = .ok (breadcrumb', result) ∧
      RoundCase heap table table' below breadcrumb breadcrumb' result := by
  obtain ⟨below, breadcrumb, breadcrumb', result, hb, hr, hcases⟩ := TypeTable.next_cases hround
  refine ⟨below, breadcrumb, breadcrumb', result, hb, hr, ?_⟩
  match hcases with
  | .inl ⟨hres, heq⟩ =>
    subst hres
    exact .pop heq
  | .inr (.inl ⟨definition_id, concrete_type, hres, hp⟩) =>
    subst hres
    obtain ⟨member, _, _, hm, hc⟩ := h.stopped_member hr (by simp)
    obtain ⟨type, ht, hd, hn⟩ := TypeTable.pushed_type h.plain hm hc
    have hplain : PlainTable { table with type_loop_breadcrumbs := below ++ [breadcrumb'] : TypeTable }.lookup :=
      h.plain
    exact .push (TypeTable.pushed_of_handle hplain ht hd hn hp)
  | .inr (.inr ⟨first_idx, hres, hc⟩) =>
    subst hres
    exact .close (h.first_idx_le hb hr) hc

theorem round (h : Detecting table) (hround : TypeTable.Round heap table table') : Detecting table' := by
  obtain ⟨below, breadcrumb, breadcrumb', result, hb, hr, hcases⟩ := h.round_cases hround
  cases hcases with
  | pop heq =>
    subst heq
    exact h.pop hb
  | push hp => exact h.push (h.moved hb hr (by simp)) hp
  | @close first_idx hle hc =>
    refine h.close ?_ (h.moved hb hr (by simp)) hc
    intro hnil
    have := List.drop_eq_nil_iff.mp hnil
    simp only [List.length_append, List.length_singleton] at this
    omega

end Detecting

end Reowolf.Types
