import Reowolf.Protocol.OwnedOperators

namespace Reowolf

-- No value of the group is a reference.
structure ValueGroup.Plain (group : ValueGroup) : Prop where
  values  : ∀ v ∈ group.values, v.is_ref = false
  regions : ∀ region ∈ group.regions, ∀ v ∈ region, v.is_ref = false

-- No value of the store is a reference.
structure Store.Plain (store : Store) : Prop where
  stack   : ∀ v ∈ store.stack, v.is_ref = false
  regions : ∀ us ∈ store.heap_regions, ∀ u ∈ us, u.is_ref = false

namespace Store

variable {store store' : Store} {K : Multiset HeapPos} {vs : List Value} {v v' : Value} {target : HeapPos}

theorem Plain.maybe_read_ref (h : store.Plain) (hr : store.maybe_read_ref v = .ok v') :
    v'.is_ref = false := by
  cases v with
  | ref id =>
    cases id with
    | stack i =>
      simp only [Store.maybe_read_ref, read_ref, read_stack] at hr
      split at hr
      case h_1 hv =>
        cases hr
        exact h.stack _ (List.mem_of_getElem? hv)
      case h_2 => cases hr
    | heap pos idx =>
      obtain ⟨us, hus, hv⟩ := read_region_eq_ok.mp hr
      exact h.regions us (List.mem_of_getElem? hus) _ (List.mem_of_getElem? hv)
  | _ =>
    cases hr
    rfl

end Store

namespace ValueGroup

variable {store store' : Store} {K : Multiset HeapPos} {vs : List Value} {v v' : Value} {target : HeapPos}
variable {group : ValueGroup} {values transferred : List Value} {regions regions' : List (List Value)}

-- What is required of a transfer from a store: it leaves references behind.
def RetrievesPlain (retrieve : Value → List (List Value) → Except Fault (Value × List (List Value))) :
    Prop :=
  ∀ {v v' regions regions'}, (∀ region ∈ regions, ∀ u ∈ region, u.is_ref = false) →
    retrieve v regions = .ok (v', regions') →
    v'.is_ref = false ∧ ∀ region ∈ regions', ∀ u ∈ region, u.is_ref = false

theorem RetrievesPlain.all
    {retrieve : Value → List (List Value) → Except Fault (Value × List (List Value))}
    (hr : RetrievesPlain retrieve) (h : ∀ region ∈ regions, ∀ u ∈ region, u.is_ref = false)
    (hv : retrieve_values retrieve values regions = .ok (transferred, regions')) :
    (∀ u ∈ transferred, u.is_ref = false) ∧ ∀ region ∈ regions', ∀ u ∈ region, u.is_ref = false := by
  induction values generalizing transferred regions with
  | nil =>
    cases hv
    exact ⟨by simp, h⟩
  | cons v values ih =>
    simp only [retrieve_values, Except.bind_eq_ok] at hv
    obtain ⟨⟨v', regions₁⟩, hv', ⟨rest, regions₂⟩, hrest, he⟩ := hv
    cases he
    obtain ⟨hp, h₁⟩ := hr h hv'
    obtain ⟨hps, h₂⟩ := ih h₁ hrest
    refine ⟨fun u hu => ?_, h₂⟩
    cases List.mem_cons.mp hu with
    | inl he => exact he ▸ hp
    | inr hu => exact hps u hu

theorem retrieve_value_plain (hs : store.Plain) (depth : Nat) :
    RetrievesPlain (retrieve_value store depth) := by
  induction depth with
  | zero =>
    intro v v' regions regions' _ hv
    cases hv
  | succ depth ih =>
    intro v v' regions regions' h hv
    simp only [retrieve_value, Except.bind_eq_ok] at hv
    obtain ⟨value, hread, hv⟩ := hv
    have hp := hs.maybe_read_ref hread
    split at hv
    case h_1 =>
      cases hv
      exact ⟨hp, h⟩
    case h_2 =>
      obtain ⟨from_region, _, hv⟩ := Except.bind_eq_ok.mp hv
      obtain ⟨⟨new_region, regions₁⟩, hvalues, he⟩ := Except.bind_eq_ok.mp hv
      cases he
      obtain ⟨hps, h₁⟩ := ih.all h hvalues
      refine ⟨Value.is_ref_with.trans hp, fun region hm => ?_⟩
      cases List.mem_append.mp hm with
      | inl hm => exact h₁ region hm
      | inr hm => exact List.mem_singleton.mp hm ▸ hps

theorem from_store_plain (hs : store.Plain) (h : from_store store values = .ok group) : group.Plain := by
  obtain ⟨⟨transferred, regions⟩, hv, he⟩ := Except.bind_eq_ok.mp h
  cases he
  obtain ⟨hvalues, hregions⟩ := RetrievesPlain.all (retrieve_value_plain hs _) (by simp) hv
  exact ⟨hvalues, hregions⟩

-- What is required of a transfer to a store: what it provides is owned there.
def ProvidesOwned (provide : Value → Store → Except Fault (Value × Store)) : Prop :=
  ∀ {store store' v v' vs K}, Store.Owns store vs K → v.is_ref = false → provide v store = .ok (v', store') →
    store'.Owns (v' :: vs) K ∧ store.Keeps store' K ∧ v'.is_ref = false

theorem ProvidesOwned.all {provide : Value → Store → Except Fault (Value × Store)}
    (hp : ProvidesOwned provide) (h : store.Owns vs K) (hm : v ∈ vs) (hv : v.get_heap_pos = some target)
    (hplain : ∀ u ∈ values, u.is_ref = false)
    (he : provide_values provide target values store = .ok store') :
    store'.Owns vs K ∧ store.Keeps store' K := by
  induction values generalizing store with
  | nil =>
    cases he
    exact ⟨h, .refl⟩
  | cons u values ih =>
    simp only [provide_values, Store.push_region, Except.bind_eq_ok, Store.region_eq_ok] at he
    obtain ⟨⟨transferred, store₁⟩, hprovide, store₂, ⟨acc, hacc, hpush⟩, he⟩ := he
    obtain ⟨h₁, hk₁, hp'⟩ := hp h (hplain u List.mem_cons_self) hprovide
    cases hpush
    have hu := h₁.in_use (List.mem_cons_of_mem _ hm) hv
    have hw : ∀ w ∈ acc ++ [transferred], w.is_ref = false := by
      intro w hw
      cases List.mem_append.mp hw with
      | inl hw => exact h₁.plain_region hacc hw
      | inr hw => exact List.mem_singleton.mp hw ▸ hp'
    have hperm : (acc ++ [transferred] ++ vs).Perm (acc ++ transferred :: vs) := by simp
    obtain ⟨h₂, hk₂⟩ := h₁.exchange hu.not_kept hu.not_free hacc hw hperm
    obtain ⟨h', hk'⟩ := ih h₂ (fun u hu => hplain u (List.mem_cons_of_mem _ hu)) he
    exact ⟨h', (hk₁.trans hk₂).trans hk'⟩

theorem provide_value_owned (hg : group.Plain) (depth : Nat) : ProvidesOwned (group.provide_value depth) := by
  induction depth with
  | zero =>
    intro store store' v v' vs K _ _ hp
    cases hp
  | succ depth ih =>
    intro store store' v v' vs K h hplain hp
    unfold provide_value at hp
    split at hp
    case h_1 hnone =>
      cases hp
      exact ⟨h.of_none hnone, .refl, hplain⟩
    case h_2 from_pos hfrom =>
      generalize halloc : store.alloc_heap = allocated at hp
      obtain ⟨to_pos, store₁⟩ := allocated
      have hv : (v.with_heap_pos to_pos).get_heap_pos = some to_pos := Value.get_heap_pos_with hfrom
      obtain ⟨h₁, _, hk₁, _⟩ := h.alloc_heap halloc hv
      simp only at hp
      split at hp
      case h_1 => cases hp
      case h_2 region hregion =>
        obtain ⟨store₂, hvalues, he⟩ := Except.bind_eq_ok.mp hp
        cases he
        obtain ⟨h₂, hk₂⟩ := ih.all h₁ List.mem_cons_self hv
          (hg.regions region (List.mem_of_getElem? hregion)) hvalues
        exact ⟨h₂, (h.keeps_lt hk₁).trans hk₂, Value.is_ref_with.trans hplain⟩

theorem push_values_owned (hg : group.Plain) (h : store.Owns store.stack K)
    (hs : ∀ v ∈ store.stack, v.is_ref = false) (hv : ∀ v ∈ values, v.is_ref = false)
    (hp : group.push_values values store = .ok store') :
    ∃ pushed, store'.stack = store.stack ++ pushed ∧ (∀ v ∈ store'.stack, v.is_ref = false) ∧
      store'.cur_stack_boundary = store.cur_stack_boundary ∧ store'.Owns store'.stack K := by
  induction values generalizing store with
  | nil =>
    cases hp
    exact ⟨[], (List.append_nil _).symm, hs, rfl, h⟩
  | cons v values ih =>
    simp only [push_values, Except.bind_eq_ok] at hp
    obtain ⟨⟨transferred, store₁⟩, hprovide, hp⟩ := hp
    obtain ⟨h₁, hk₁, hp₁⟩ := provide_value_owned hg _ h (hv v List.mem_cons_self) hprovide
    have h₁' : store₁.Owns (store₁.stack ++ [transferred]) K := by
      rw [hk₁.stack]
      exact h₁.perm (List.perm_append_singleton _ _).symm
    have hs₁ : ∀ v ∈ store₁.stack ++ [transferred], v.is_ref = false := by
      intro v hv
      cases List.mem_append.mp hv with
      | inl hv => exact hs v (hk₁.stack ▸ hv)
      | inr hv => exact List.mem_singleton.mp hv ▸ hp₁
    let store₂ := { store₁ with stack := store₁.stack ++ [transferred] }
    have h₂ : store₂.Owns store₂.stack K := ⟨h₁'.toLinear, h₁'.plain⟩
    have hv' : ∀ v ∈ values, v.is_ref = false := fun v hm => hv v (List.mem_cons_of_mem _ hm)
    obtain ⟨pushed, hstack, hplain, hb, ho⟩ := ih h₂ hs₁ hv' hp
    refine ⟨transferred :: pushed, ?_, hplain, hb.trans hk₁.boundary, ho⟩
    have hstack₂ : store₂.stack = store.stack ++ [transferred] := congrArg (· ++ _) hk₁.stack
    rw [hstack, hstack₂, List.append_assoc]
    rfl

end ValueGroup

end Reowolf
