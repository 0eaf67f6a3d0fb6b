import Reowolf.Types.LoopTermination
import Mathlib.Algebra.Order.BigOperators.Group.List
import Mathlib.Algebra.Order.Group.Nat
import Mathlib.Algebra.GroupWithZero.Nat

namespace Reowolf.Types

open Halting (Halts)
open Relation (ReflTransGen)

namespace DefinedType

-- What is to be done for a definition before there is a monomorph of it.
def weight (type : DefinedType) : Nat :=
  if type.num_monomorphs = 0 then type.member_types.length + 2 else 0

theorem erased_weight (type : DefinedType) : type.erased.weight = type.weight := by
  rw [weight, weight, erased_num_monomorphs, ← member_types_base, erased_base, member_types_base]

end DefinedType

-- What is to be done for a breadcrumb.
def breadcrumb_weight (lookup : List DefinedType) (breadcrumb : TypeLoopBreadcrumb) : Nat :=
  (remaining_members lookup breadcrumb).length + 1

theorem SameTypes.breadcrumb_weight_eq {lookup lookup' : List DefinedType}
    (h : SameTypes lookup lookup') : breadcrumb_weight lookup' = breadcrumb_weight lookup :=
  funext fun breadcrumb => by rw [breadcrumb_weight, breadcrumb_weight, h.remaining_members_eq]

theorem SameTypes.map_weight_eq {lookup lookup' : List DefinedType} (h : SameTypes lookup lookup') :
    lookup'.map DefinedType.weight = lookup.map DefinedType.weight := by
  have hmap := congrArg (List.map DefinedType.weight) h
  rw [List.map_map, List.map_map] at hmap
  have hcomp : DefinedType.weight ∘ DefinedType.erased = DefinedType.weight :=
    funext DefinedType.erased_weight
  rwa [hcomp] at hmap

theorem sum_map_set {α : Type*} {f : α → Nat} {as : List α} {i : Nat} {a a' : α}
    (h : as[i]? = some a) : ((as.set i a').map f).sum + f a = (as.map f).sum + f a' := by
  induction as generalizing i with
  | nil => simp at h
  | cons b as ih =>
    cases i with
    | zero =>
      simp only [List.getElem?_cons_zero, Option.some.injEq] at h
      subst h
      simp only [List.set_cons_zero, List.map_cons, List.sum_cons]
      omega
    | succ i =>
      have := ih (by simpa using h)
      simp only [List.set_cons_succ, List.map_cons, List.sum_cons]
      omega

-- What is to be done in all, which no round adds to.
def TypeTable.to_do (table : TypeTable) : Nat :=
  (table.lookup.map DefinedType.weight).sum +
    (table.type_loop_breadcrumbs.map (breadcrumb_weight table.lookup)).sum

theorem Pushed.weight_lt {table table' : TypeTable} {definition_id : DefinitionId}
    (h : Pushed table table' definition_id)
    (hi : ∀ b ∈ table.type_loop_breadcrumbs,
      Instantiated table.lookup b.definition_id b.monomorph_idx) :
    table'.to_do < table.to_do := by
  obtain ⟨type, type', ht, _, hn, hn', _, hset, hlen⟩ := h.new
  have hsum : ((table.lookup.set definition_id type').map DefinedType.weight).sum + type.weight =
      (table.lookup.map DefinedType.weight).sum + type'.weight := sum_map_set ht
  have hbefore : type.weight = type.member_types.length + 2 := if_pos hn
  have hafter : type'.weight = 0 := if_neg (by omega)
  have hsame : table.type_loop_breadcrumbs.map (breadcrumb_weight table'.lookup) =
      table.type_loop_breadcrumbs.map (breadcrumb_weight table.lookup) := by
    refine List.map_congr_left fun b hb => ?_
    rw [breadcrumb_weight, breadcrumb_weight, h.remaining_members_eq (hi b hb)]
  have hnew : breadcrumb_weight table'.lookup ⟨definition_id, 0, 0, 0⟩ =
      type.member_types.length + 1 := by
    have hget : table'.lookup[definition_id]? = some type' := by
      rw [hset, List.getElem?_set_self (List.getElem?_eq_some_iff.mp ht).fst]
    simp only [breadcrumb_weight, remaining_members, hget, List.length_map, ← hlen]
    rfl
  rw [← hset] at hsum
  rw [TypeTable.to_do, TypeTable.to_do, h.breadcrumbs, List.map_append, List.sum_append, hsame]
  simp only [List.map_cons, List.map_nil, List.sum_cons, List.sum_nil]
  omega

-- The breadcrumbs of a type loop, with the one on top told apart.
theorem close_concat (lookup : List DefinedType) {below : List TypeLoopBreadcrumb}
    (breadcrumb : TypeLoopBreadcrumb) {first_idx : Nat} (h : first_idx ≤ below.length) :
    (below ++ [breadcrumb]).take first_idx ++
        ((below ++ [breadcrumb]).drop first_idx).map (close_breadcrumb lookup) =
      (below.take first_idx ++ (below.drop first_idx).map (close_breadcrumb lookup)) ++
        [close_breadcrumb lookup breadcrumb] := by
  rw [List.take_append_of_le_length h, List.drop_append_of_le_length h]
  simp

theorem close_weight_le (lookup : List DefinedType) (breadcrumbs : List TypeLoopBreadcrumb)
    (first_idx : Nat) :
    ((breadcrumbs.take first_idx ++ (breadcrumbs.drop first_idx).map (close_breadcrumb lookup)).map
        (breadcrumb_weight lookup)).sum ≤
      (breadcrumbs.map (breadcrumb_weight lookup)).sum := by
  conv_rhs => rw [← List.take_append_drop first_idx breadcrumbs]
  simp only [List.map_append, List.sum_append, List.map_map]
  refine Nat.add_le_add_left (List.sum_le_sum fun b _ => ?_) _
  exact Nat.succ_le_succ (length_remaining_members_close_le lookup b)

namespace Detecting

variable {heap : Heap} {table table' : TypeTable}

-- A union on top of a type loop advances past the member that closes the loop.
theorem close_lt {breadcrumb breadcrumb' : TypeLoopBreadcrumb} {result : TypeLoopResult}
    (hr : table.resolve_members breadcrumb = .ok (breadcrumb', result)) (hne : result ≠ .typeExists)
    (hu : is_union_at table.lookup breadcrumb.definition_id) :
    breadcrumb_weight table.lookup (close_breadcrumb table.lookup breadcrumb') <
      breadcrumb_weight table.lookup breadcrumb := by
  obtain ⟨hid, _, hs, hengaged⟩ := TypeTable.resolve_members_scanned hr
  obtain ⟨member, rest, hrest, _⟩ := hs.exists_cons hne
  have hle := hs.length_le
  have htail := (hengaged hne).right (hid ▸ hu)
  have hclose : close_breadcrumb table.lookup breadcrumb' = breadcrumb'.advance := by
    rw [close_breadcrumb, hid, if_pos hu]
  rw [hrest, List.tail_cons] at htail
  rw [hrest, List.length_cons] at hle
  rw [hclose, breadcrumb_weight, breadcrumb_weight, htail]
  omega

theorem round_lt (h : Detecting table) (hround : TypeTable.Round heap table table')
    (htrap : ¬table.ClosesAtStruct) : table'.to_do < table.to_do := by
  obtain ⟨below, breadcrumb, breadcrumb', result, hb, hr, hcases⟩ := h.round_cases hround
  have hmoved : breadcrumb_weight table.lookup breadcrumb' ≤ breadcrumb_weight table.lookup breadcrumb :=
    Nat.succ_le_succ (TypeTable.resolve_members_scanned hr).right.right.left.length_le
  have hsum (b : TypeLoopBreadcrumb) : ((below ++ [b]).map (breadcrumb_weight table.lookup)).sum =
      (below.map (breadcrumb_weight table.lookup)).sum + breadcrumb_weight table.lookup b := by
    simp
  have hto_do : table.to_do = (table.lookup.map DefinedType.weight).sum +
      ((below.map (breadcrumb_weight table.lookup)).sum + breadcrumb_weight table.lookup breadcrumb) := by
    rw [TypeTable.to_do, hb, hsum]
  cases hcases with
  | pop heq =>
    subst heq
    have : 0 < breadcrumb_weight table.lookup breadcrumb := Nat.succ_pos _
    rw [hto_do, TypeTable.to_do]
    dsimp only
    omega
  | push hp =>
    have hlt := hp.weight_lt fun b hm => (h.moved hb hr (by simp) b hm).right
    refine Nat.lt_of_lt_of_le hlt ?_
    rw [hto_do, TypeTable.to_do]
    dsimp only
    rw [hsum]
    omega
  | @close first_idx hle hc =>
    obtain ⟨lookup, hs, _, ⟨union, hmem, hu⟩, rfl⟩ := TypeTable.handle_type_loop_cases hc
    obtain ⟨hid, _⟩ := TypeTable.resolve_members_scanned hr
    -- Were the top not a union, then it would be a struct that closes the loop.
    have hub : is_union_at table.lookup breadcrumb.definition_id := by
      by_contra hnot
      rw [Bool.not_eq_true] at hnot
      dsimp only at hmem
      rw [List.drop_append_of_le_length hle] at hmem
      cases List.mem_append.mp hmem with
      | inl hmem => exact htrap ⟨below, breadcrumb, breadcrumb', first_idx, hb, hr, hnot, union, hmem, hu⟩
      | inr hmem =>
        cases List.mem_singleton.mp hmem
        rw [hid, hnot] at hu
        cases hu
    have hlt := close_lt hr (by simp) hub
    have hclosed := close_weight_le table.lookup below first_idx
    rw [hto_do, TypeTable.to_do]
    dsimp only
    rw [hs.map_weight_eq, hs.breadcrumb_weight_eq, close_concat _ _ hle, List.map_append, List.sum_append]
    simp only [List.map_cons, List.map_nil, List.sum_cons, List.sum_nil]
    omega

end Detecting

namespace TypeTable

variable {heap : Heap} {table table' : TypeTable}

-- A struct that has stopped at a member stops at it again.
theorem resolve_members_of_struct {breadcrumb : TypeLoopBreadcrumb} {member : ConcreteType}
    {rest : List ConcreteType} {result : TypeLoopResult}
    (hu : is_union_at table.lookup breadcrumb.definition_id = false)
    (hrest : remaining_members table.lookup breadcrumb = member :: rest)
    (hc : table.check_member_for_type_loops member = .ok result) (hne : result ≠ .typeExists) :
    table.resolve_members breadcrumb = .ok (breadcrumb, result) := by
  unfold remaining_members at hrest
  split at hrest
  case h_2 => cases hrest
  case h_1 type ht =>
    cases hd : type.definition with
    | union definition => simp [is_union_at, ht, DefinedType.is_union, hd] at hu
    | struct definition =>
      simp only [DefinedType.remaining, hd] at hrest
      cases hm : definition.monomorphs[breadcrumb.monomorph_idx]? with
      | none => simp [hm] at hrest
      | some monomorph =>
        simp only [hm] at hrest
        obtain ⟨field, fields, hfields, hmember, _⟩ := List.map_eq_cons_iff.mp hrest
        rw [← hmember] at hc
        have hcheck : table.check_members breadcrumb.next_member
            (monomorph.fields.drop breadcrumb.next_member) = .ok (breadcrumb.next_member, result) := by
          simp only [hfields, check_members, hc, bind, Except.bind]
        simp [resolve_members, ht, hd, hm, hcheck, bind, Except.bind]
    | _ => simp [DefinedType.remaining, hd] at hrest

-- A type loop is either added, or it has no union in it.
theorem handle_type_loop_total (heap : Heap) (table : TypeTable) (first_idx : Nat)
    (he : ∀ b ∈ table.type_loop_breadcrumbs.drop first_idx, EngagedAt table.lookup b) :
    (∃ table', table.handle_type_loop heap first_idx = .ok table') ∨
      ((∀ b ∈ table.type_loop_breadcrumbs.drop first_idx,
          is_union_at table.lookup b.definition_id = false) ∧
        ∃ lookup, SameTypes table.lookup lookup ∧
          table.handle_type_loop heap first_idx = .error (construct_type_loop_error heap lookup
            ⟨(table.type_loop_breadcrumbs.drop first_idx).map (loop_member table.lookup)⟩)) := by
  obtain ⟨⟨lookup, breadcrumbs, loop_members⟩, hclose⟩ := exists_close_type_loop he
  obtain ⟨hs, _, hm⟩ := close_type_loop_cases hclose
  subst hm
  simp only [handle_type_loop, hclose, bind, Except.bind]
  split
  case isTrue => exact .inl ⟨_, rfl⟩
  case isFalse hany =>
    refine .inr ⟨fun b hb => ?_, lookup, hs, rfl⟩
    rw [Bool.not_eq_true, List.any_eq_false] at hany
    have := hany (loop_member table.lookup b) (List.mem_map_of_mem hb)
    simpa [loop_member] using this

theorem next_eq {below : List TypeLoopBreadcrumb} {breadcrumb : TypeLoopBreadcrumb}
    (hb : table.type_loop_breadcrumbs = below ++ [breadcrumb]) :
    table.next heap = some (table.resolve_breadcrumb heap below breadcrumb) := by
  simp [next, hb]

end TypeTable

namespace Detecting

variable {heap : Heap} {table table' : TypeTable}

-- A loop that is closed at a struct is closed over and over again.
theorem trapped (h : Detecting table) (ht : table.ClosesAtStruct) :
    ∃ table', TypeTable.Round heap table table' ∧ table'.ClosesAtStruct := by
  obtain ⟨below, breadcrumb, breadcrumb', first_idx, hb, hr, hnot, union, hmem, hu⟩ := ht
  have hle := h.first_idx_le hb hr
  have hmoved := h.moved hb hr (by simp)
  obtain ⟨hid, hidx, _⟩ := TypeTable.resolve_members_scanned hr
  obtain ⟨member, rest, hrest, _, hc⟩ := h.stopped_member hr (by simp)
  obtain ⟨table', heq⟩ : ∃ table', { table with type_loop_breadcrumbs := below ++ [breadcrumb']
      : TypeTable }.handle_type_loop heap first_idx = .ok table' := by
    refine (TypeTable.handle_type_loop_total heap
      { table with type_loop_breadcrumbs := below ++ [breadcrumb'] } first_idx
      fun b hb => (hmoved b (List.mem_of_mem_drop hb)).left).resolve_right ?_
    rintro ⟨hall, _⟩
    have hunion := hall union (by
      dsimp only
      rw [List.drop_append_of_le_length hle]
      exact List.mem_append_left _ hmem)
    rw [hu] at hunion
    cases hunion
  refine ⟨table', ?_, ?_⟩
  · rw [TypeTable.Round, TypeTable.next_eq hb]
    simp only [TypeTable.resolve_breadcrumb, hr, bind, Except.bind]
    exact congrArg some heq
  · obtain ⟨lookup, hsame, _, _, hshape⟩ := TypeTable.handle_type_loop_cases heq
    have hs : SameTypes table.lookup table'.lookup := hshape ▸ hsame
    have hnot' : is_union_at table.lookup breadcrumb'.definition_id = false := hid ▸ hnot
    have htop : close_breadcrumb table.lookup breadcrumb' = breadcrumb' := by
      rw [close_breadcrumb, if_neg (by simp [hnot'])]
    have hb' : table'.type_loop_breadcrumbs = (below.take first_idx ++
        (below.drop first_idx).map (close_breadcrumb table.lookup)) ++ [breadcrumb'] := by
      have := close_concat table.lookup breadcrumb' hle
      rw [htop] at this
      rw [hshape]
      exact this
    refine ⟨_, breadcrumb', breadcrumb', first_idx, hb', ?_, ?_, close_breadcrumb table.lookup union, ?_, ?_⟩
    · have hrest' : remaining_members table'.lookup breadcrumb' = member :: rest := by
        rw [hs.remaining_members_eq, hrest]
      refine TypeTable.resolve_members_of_struct ?_ hrest' ?_ (by simp)
      · rw [hs.is_union_at_eq, hnot']
      · rw [← hc]
        refine TypeTable.check_member_congr hs ?_ member
        have hids : ∀ b, ((close_breadcrumb table.lookup b).definition_id,
            (close_breadcrumb table.lookup b).monomorph_idx) = (b.definition_id, b.monomorph_idx) :=
          fun b => by rw [close_breadcrumb_definition_id, close_breadcrumb_monomorph_idx]
        rw [hb', hb]
        simp only [List.map_append, List.map_map, Function.comp_def, hids, List.map_cons, List.map_nil,
          hid, hidx, List.append_cancel_right_eq]
        rw [← List.map_append, List.take_append_drop]
    · rw [hs.is_union_at_eq, hnot']
    · rw [List.drop_append, List.length_take, Nat.min_eq_left hle, Nat.sub_self, List.drop_zero]
      exact List.mem_append_right _ (List.mem_map_of_mem hmem)
    · rw [hs.is_union_at_eq, close_breadcrumb_definition_id, hu]

end Detecting

-- The members of a type loop have names.
theorem type_loop_messages_total (heap : Heap) {first_type : DefinedType} {breadcrumb : TypeLoopBreadcrumb}
    (he : first_type.Engaged breadcrumb) (hz : breadcrumb.monomorph_idx = 0) {entries : List TypeLoopEntry}
    (h : ∀ entry ∈ entries, entry.monomorph_idx = 0) (index_in_loop : Nat) :
    ∃ messages, type_loop_messages heap first_type index_in_loop entries = .ok messages := by
  have hmessage (n : Nat) : ∃ message, type_loop_source_span_and_message heap first_type 0 n = .ok message := by
    unfold type_loop_source_span_and_message
    cases hd : first_type.definition with
    | union definition =>
      simp only [DefinedType.Engaged, hd, hz] at he
      obtain ⟨monomorph, hm, _⟩ := he
      simp only [hm, Option.map_some]
      split <;> [exact ⟨_, rfl⟩; (split <;> exact ⟨_, rfl⟩)]
    | struct definition =>
      simp only [DefinedType.Engaged, hd, hz] at he
      simp only [List.getElem?_eq_getElem he, Option.map_some]
      split <;> [exact ⟨_, rfl⟩; (split <;> exact ⟨_, rfl⟩)]
    | _ => simp [DefinedType.Engaged, hd] at he
  induction entries generalizing index_in_loop with
  | nil => exact ⟨_, rfl⟩
  | cons entry entries ih =>
    obtain ⟨message, hm⟩ := hmessage index_in_loop
    obtain ⟨messages, hms⟩ := ih (fun e he => h e (List.mem_cons_of_mem _ he)) (index_in_loop + 1)
    simp [type_loop_messages, h entry (by simp), hm, hms, bind, Except.bind]

theorem construct_type_loop_error_total (heap : Heap) {lookup : List DefinedType}
    {breadcrumbs : List TypeLoopBreadcrumb} (hne : breadcrumbs ≠ [])
    (h : ∀ b ∈ breadcrumbs, EngagedAt lookup b ∧ Instantiated lookup b.definition_id b.monomorph_idx) :
    ∃ error, construct_type_loop_error heap lookup ⟨breadcrumbs.map (loop_member lookup)⟩ =
      .parse_error error := by
  cases breadcrumbs with
  | nil => exact absurd rfl hne
  | cons breadcrumb breadcrumbs =>
    obtain ⟨⟨type, ht, he⟩, hz, _⟩ := h breadcrumb (by simp)
    have hidx : ∀ entry ∈ (breadcrumb :: breadcrumbs).map (loop_member lookup),
        entry.monomorph_idx = 0 := by
      intro entry hm
      obtain ⟨b, hb, rfl⟩ := List.mem_map.mp hm
      exact (h b hb).right.left
    obtain ⟨messages, hm⟩ := type_loop_messages_total heap he hz hidx 0
    simp only [List.map_cons] at hm
    have hfirst : (loop_member lookup breadcrumb).definition_id = breadcrumb.definition_id := rfl
    simp only [construct_type_loop_error, List.map_cons, hfirst, ht, hm]
    exact ⟨_, rfl⟩

theorem can_be_broken_total {lookup : List DefinedType} {breadcrumbs : List TypeLoopBreadcrumb}
    (h : ∀ b ∈ breadcrumbs, EngagedAt lookup b) :
    ∃ out, can_be_broken lookup (breadcrumbs.map (loop_member lookup)) = .ok out := by
  induction breadcrumbs with
  | nil => exact ⟨_, rfl⟩
  | cons breadcrumb breadcrumbs ih =>
    obtain ⟨out, ho⟩ := ih fun b hb => h b (List.mem_cons_of_mem _ hb)
    obtain ⟨type, ht, he⟩ := h breadcrumb (by simp)
    rw [List.map_cons, can_be_broken]
    split
    case isFalse => exact ⟨out, ho⟩
    case isTrue hu =>
      simp only [loop_member, is_union_at, ht, Option.map_some, Option.getD_some] at hu
      cases hd : type.definition with
      | union definition =>
        simp only [DefinedType.Engaged, hd] at he
        obtain ⟨monomorph, hm, _⟩ := he
        simp [loop_member, ht, hd, hm, ho, bind, Except.bind]
      | _ => simp [DefinedType.is_union, hd] at hu

namespace TypeTable

variable {heap : Heap} {table table' : TypeTable} {fuel : Nat}

theorem resolve_breadcrumbs_none (h : table.next heap = none) :
    table.resolve_breadcrumbs heap fuel = .ok table := by
  unfold resolve_breadcrumbs
  rw [h]

theorem resolve_breadcrumbs_zero {result : Except Stop TypeTable} (h : table.next heap = some result) :
    table.resolve_breadcrumbs heap 0 = .error .fuel := by
  unfold resolve_breadcrumbs
  rw [h]

theorem resolve_breadcrumbs_succ {result : Except Stop TypeTable} (h : table.next heap = some result) :
    table.resolve_breadcrumbs heap (fuel + 1) =
      result >>= fun table' => table'.resolve_breadcrumbs heap fuel := by
  rw [resolve_breadcrumbs, h]

-- A run with a result is made of rounds, and ends where there is none left to do.
theorem rounds_of_resolve_breadcrumbs (h : table.resolve_breadcrumbs heap fuel = .ok table') :
    Relation.ReflTransGen (Round heap) table table' ∧ table'.next heap = none := by
  induction fuel generalizing table with
  | zero =>
    cases hnext : table.next heap with
    | none =>
      rw [resolve_breadcrumbs_none hnext] at h
      cases h
      exact ⟨.refl, hnext⟩
    | some =>
      rw [resolve_breadcrumbs_zero hnext] at h
      cases h
  | succ fuel ih =>
    cases hnext : table.next heap with
    | none =>
      rw [resolve_breadcrumbs_none hnext] at h
      cases h
      exact ⟨.refl, hnext⟩
    | some result =>
      rw [resolve_breadcrumbs_succ hnext] at h
      obtain ⟨table₁, hresult, h⟩ := Except.bind_eq_ok.mp h
      subst hresult
      obtain ⟨hrounds, hend⟩ := ih h
      exact ⟨.head hnext hrounds, hend⟩

theorem detect_and_resolve_type_loops_for_cases {concrete_type : ConcreteType}
    (h : table.detect_and_resolve_type_loops_for heap fuel concrete_type = .ok table') :
    ∃ definition_id definition_type initial resolved,
      table.check_member_for_type_loops concrete_type =
        .ok (.pushBreadcrumb definition_id definition_type) ∧
      table.handle_new_breadcrumb_for_type_loops definition_id definition_type = .ok initial ∧
      initial.resolve_breadcrumbs heap fuel = .ok resolved ∧ table' = { resolved with type_loops := [] } := by
  obtain ⟨result, hcheck, h⟩ := Except.bind_eq_ok.mp h
  cases result with
  | pushBreadcrumb definition_id definition_type =>
    obtain ⟨initial, hhandle, h⟩ := Except.bind_eq_ok.mp h
    obtain ⟨resolved, hresolve, h⟩ := Except.bind_eq_ok.mp h
    obtain ⟨_, _, h⟩ := Except.bind_eq_ok.mp h
    cases h
    exact ⟨_, _, initial, resolved, hcheck, hhandle, hresolve, rfl⟩
  | _ => cases h

end TypeTable

namespace Detecting

variable {table : TypeTable}

-- A round neither panics nor runs out of anything.
theorem next_total (heap : Heap) (h : Detecting table) :
    table.type_loop_breadcrumbs = [] ∧ table.next heap = none ∨
      (∃ table', TypeTable.Round heap table table') ∨
      ∃ error, table.next heap = some (.error (.parse_error error)) := by
  cases List.eq_nil_or_concat' table.type_loop_breadcrumbs with
  | inl hnil => exact .inl ⟨hnil, by simp [TypeTable.next, hnil]⟩
  | inr hconcat =>
    obtain ⟨below, breadcrumb, hb⟩ := hconcat
    obtain ⟨⟨breadcrumb', result⟩, hr⟩ :=
      TypeTable.exists_resolve_members h.plain (h.instantiated breadcrumb (by simp [hb]))
    refine .inr ?_
    rw [TypeTable.next_eq hb]
    simp only [TypeTable.Round, TypeTable.next_eq hb, TypeTable.resolve_breadcrumb, hr, bind, Except.bind]
    cases result with
    | typeExists => exact .inl ⟨_, rfl⟩
    | pushBreadcrumb definition_id concrete_type =>
      obtain ⟨member, _, _, hm, hc⟩ := h.stopped_member hr (by simp)
      obtain ⟨type, ht, hd, _⟩ := TypeTable.pushed_type h.plain hm hc
      obtain ⟨out, ho⟩ := DefinedType.exists_push_monomorph hd (h.plain.types ht hd) concrete_type
      left
      simp [TypeTable.handle_new_breadcrumb_for_type_loops, ht, ho, bind, Except.bind]
    | typeLoop first_idx =>
      have hmoved := h.moved hb hr (by simp)
      have hle := h.first_idx_le hb hr
      match TypeTable.handle_type_loop_total heap
        { table with type_loop_breadcrumbs := below ++ [breadcrumb'] } first_idx
        fun b hb => (hmoved b (List.mem_of_mem_drop hb)).left with
      | .inl ⟨table', heq⟩ => exact .inl ⟨table', congrArg some heq⟩
      | .inr ⟨_, lookup, hs, heq⟩ =>
        have hne : (below ++ [breadcrumb']).drop first_idx ≠ [] := by
          rw [List.drop_append_of_le_length hle]
          simp
        obtain ⟨error, herror⟩ := construct_type_loop_error_total heap hne fun b hb =>
          (hmoved b (List.mem_of_mem_drop hb)).imp hs.engagedAt hs.instantiated
        rw [hs.loop_member_eq] at herror
        exact .inr ⟨error, congrArg some (heq.trans (congrArg Except.error herror))⟩

-- At the end of the main resolving loop, the type loops that have been found can be checked.
theorem check_type_loops_total (heap : Heap) (h : Detecting table) :
    check_type_loops heap table.lookup table.type_loops = .ok () ∨
      ∃ error, check_type_loops heap table.lookup table.type_loops = .error (.parse_error error) := by
  have hloops := h.loops
  generalize table.type_loops = type_loops at hloops ⊢
  induction type_loops with
  | nil => exact .inl rfl
  | cons type_loop type_loops ih =>
    obtain ⟨breadcrumbs, hne, heq, hall⟩ := hloops type_loop (by simp)
    obtain ⟨out, ho⟩ := can_be_broken_total fun b hb => (hall b hb).left
    obtain ⟨error, herror⟩ := construct_type_loop_error_total heap hne hall
    rw [check_type_loops, heq, ho]
    cases out with
    | true  => exact ih fun l hl => hloops l (List.mem_cons_of_mem _ hl)
    | false =>
      have hloop : type_loop = ⟨breadcrumbs.map (loop_member table.lookup)⟩ := by
        rw [← heq]
      refine .inr ⟨error, ?_⟩
      rw [hloop, herror]
      rfl

-- A run that ends does so with all breadcrumbs cleared or with an error.
theorem resolve_breadcrumbs_of_halts {heap : Heap} (h : Detecting table) (hh : Halts (TypeTable.Round heap) table) :
    ∃ fuel, (∃ table', table.resolve_breadcrumbs heap fuel = .ok table' ∧ Detecting table') ∨
      ∃ error, table.resolve_breadcrumbs heap fuel = .error (.parse_error error) := by
  induction hh with
  | intro table _ ih =>
    match h.next_total heap with
    | .inl ⟨_, hnone⟩ => exact ⟨0, .inl ⟨table, TypeTable.resolve_breadcrumbs_none hnone, h⟩⟩
    | .inr (.inl ⟨table', hr⟩) =>
      obtain ⟨fuel, hfuel⟩ := ih table' hr (h.round hr)
      refine ⟨fuel + 1, ?_⟩
      rw [TypeTable.resolve_breadcrumbs_succ hr]
      exact hfuel
    | .inr (.inr ⟨error, herror⟩) =>
      refine ⟨1, .inr ⟨error, ?_⟩⟩
      rw [TypeTable.resolve_breadcrumbs_succ herror]
      rfl

end Detecting

theorem TypeTable.halts_of_resolve_breadcrumbs {heap : Heap} {table : TypeTable} {fuel : Nat}
    (h : table.resolve_breadcrumbs heap fuel ≠ .error .fuel) : Halts (TypeTable.Round heap) table := by
  induction fuel generalizing table with
  | zero => exact .of_steps fun {table'} hr => absurd (TypeTable.resolve_breadcrumbs_zero hr) h
  | succ fuel ih =>
    refine .of_steps fun {table'} hr => ih ?_
    rw [TypeTable.resolve_breadcrumbs_succ hr] at h
    exact h

end Reowolf.Types
