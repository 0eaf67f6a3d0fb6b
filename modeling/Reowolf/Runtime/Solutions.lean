import Reowolf.Runtime.NativeBranches
import Reowolf.Runtime.Sync

namespace Reowolf
namespace SolutionStorage

-- Every subtree has submitted a solution that is part of `q`.
def Supports (s : SolutionStorage) (q : Predicate) : Prop :=
  ∀ id, s.Knows id → ∃ p ∈ s.solutions id, p ⊆ q

-- The storage has one solution set for each of the subtrees, and the solutions of the connector
-- itself are supported by all of these.
structure Sound (ids : List SubtreeId) (s : SolutionStorage) : Prop where
  index    : ∀ {id index}, s.subtree_id_to_index.get? id = some index → ids[index]? = some id
  known    : ∀ {id}, id ∈ ids → ∃ index, s.subtree_id_to_index.get? id = some index
  length   : s.subtree_solutions.length = ids.length
  supports : ∀ {q}, q ∈ s.old_local ∨ q ∈ s.new_local →
             ∀ {index : Nat} {set : Finset Predicate}, s.subtree_solutions[index]? = some set → ∃ p ∈ set, p ⊆ q

-- Solutions are added to the storage.
structure Grows (s s' : SolutionStorage) : Prop where
  knows     : ∀ {id}, s'.Knows id ↔ s.Knows id
  solutions : ∀ id, s.solutions id ⊆ s'.solutions id

variable {s s' s'' : SolutionStorage} {ids : List SubtreeId} {id id' : SubtreeId}
variable {p q : Predicate} {sets : List (Finset Predicate)}

namespace Grows

theorem refl : s.Grows s :=
  ⟨Iff.rfl, fun _ => Finset.Subset.refl _⟩

theorem trans (h : s.Grows s') (h' : s'.Grows s'') : s.Grows s'' :=
  ⟨h'.knows.trans h.knows, fun id => (h.solutions id).trans (h'.solutions id)⟩

theorem supports (h : s.Grows s') (hs : s.Supports q) : s'.Supports q := by
  intro id hk
  obtain ⟨p, hp, hpq⟩ := hs id (h.knows.mp hk)
  exact ⟨p, h.solutions id hp, hpq⟩

end Grows

-- A combined solution extends the given one, and one of each set.
theorem subset_of_elaborate (h : q ∈ elaborate_into_new_local_rec p sets) :
    p ⊆ q ∧ ∀ set ∈ sets, ∃ p' ∈ set, p' ⊆ q := by
  induction sets generalizing p with
  | nil =>
    cases Finset.mem_singleton.mp h
    exact ⟨Predicate.Subset.refl _, nofun⟩
  | cons set sets ih =>
    obtain ⟨pred, hp, h⟩ := Finset.mem_biUnion.mp h
    split at h
    case h_2 => cases Finset.notMem_empty _ h
    case h_1 elaborated hu =>
      obtain ⟨hc, hu⟩ := Predicate.union_with_eq_some.mp hu
      subst hu
      obtain ⟨hq, hsets⟩ := ih h
      refine ⟨Predicate.Subset.trans Predicate.subset_union_right hq, List.forall_mem_cons.mpr ⟨?_, hsets⟩⟩
      exact ⟨pred, hp, Predicate.Subset.trans (Predicate.subset_union_left hc) hq⟩

theorem new_sound : Sound ids (new ids) where
  index    := by
    intro id index h
    cases HashMap.mem_of_foldl_insert h
    case inl h => exact List.mk_mem_zipIdx_iff_getElem?.mp h
    case inr h => cases h
  known    := by
    intro id h
    obtain ⟨index, h⟩ := List.mem_iff_getElem?.mp h
    exact HashMap.exists_foldl_insert (.inl ⟨index, List.mk_mem_zipIdx_iff_getElem?.mpr h⟩)
  length   := List.length_map ..
  supports := fun h => (h.elim (nomatch Finset.notMem_empty _ ·) (nomatch Finset.notMem_empty _ ·))

namespace Sound

theorem knows (h : s.Sound ids) (hm : id ∈ ids) : s.Knows id := by
  obtain ⟨index, hi⟩ := h.known hm
  exact ⟨index, hi, h.length ▸ (List.getElem?_eq_some_iff.mp (h.index hi)).fst⟩

-- The solutions of the connector itself are supported by all subtrees.
theorem supports_local (h : s.Sound ids) (hq : q ∈ s.old_local ∨ q ∈ s.new_local) :
    s.Supports q := by
  rintro id ⟨index, hi, hlt⟩
  have hset : s.subtree_solutions[index]? = some s.subtree_solutions[index] :=
    List.getElem?_eq_getElem hlt
  obtain ⟨p, hp, hpq⟩ := h.supports hq hset
  exact ⟨p, by simpa [solutions, hi, hset] using hp, hpq⟩

theorem submit (hs : s.Sound ids) (h : s.submit_and_digest_subtree_solution id p = .ok s') :
    s'.Sound ids := by
  simp only [submit_and_digest_subtree_solution, SyncResult.bind_eq_ok, SyncResult.unwrap_eq_ok] at h
  obtain ⟨index, hi, set, hset, h⟩ := h
  split at h <;> cases h
  case isTrue  => exact hs
  case isFalse hn =>
    refine ⟨hs.index, hs.known, by simp [hs.length], fun {q} hq {index' set'} hset' => ?_⟩
    simp only [List.getElem?_set] at hset'
    -- a solution is old, or it is made from `p` and one solution of every other set
    have hcases : (q ∈ s.old_local ∨ q ∈ s.new_local) ∨ q ∈ elaborate_into_new_local_rec p
        (s.subtree_solutions.take index ++ s.subtree_solutions.drop (index + 1)) := by
      simp only [Finset.mem_union, Finset.mem_filter] at hq
      grind
    split at hset'
    case isTrue he =>
      split at hset' <;> cases hset'
      cases hcases
      case inl hq =>
        obtain ⟨p', hp', hpq⟩ := hs.supports hq hset
        exact ⟨p', Finset.mem_insert_of_mem hp', hpq⟩
      case inr hq => exact ⟨p, Finset.mem_insert_self .., (subset_of_elaborate hq).left⟩
    case isFalse he =>
      cases hcases
      case inl hq => exact hs.supports hq hset'
      case inr hq =>
        refine (subset_of_elaborate hq).right set' (List.mem_append.mpr ?_)
        simp only [List.mem_iff_getElem?, List.getElem?_take, List.getElem?_drop]
        by_cases hlt : index' < index
        case pos => exact .inl ⟨index', by simp [hlt, hset']⟩
        case neg =>
          refine .inr ⟨index' - (index + 1), ?_⟩
          rw [← hset']
          congr 1
          omega

theorem make_old (hs : s.Sound ids) (h : s.make_old p = .ok s') : s'.Sound ids := by
  simp only [SolutionStorage.make_old, SyncResult.bind_eq_ok, SyncResult.choose_eq_ok] at h
  obtain ⟨_, hm, _, _, h⟩ := h
  cases h
  refine ⟨hs.index, hs.known, hs.length, fun {q} hq => hs.supports ?_⟩
  simp only [Finset.mem_insert, Finset.mem_erase] at hq
  cases hq
  case inr hq => exact .inr hq.right
  case inl hq =>
    cases hq
    case inl hq => exact .inr (hq ▸ hm)
    case inr hq => exact .inl hq

-- Different subtrees have different sets.
theorem solutions_ne (hs : s.Sound ids) (h : s.Submits id p s') (hk : s.Knows id) (hne : id' ≠ id) :
    s'.solutions id' = s.solutions id' := by
  apply h.others
  intro he
  obtain ⟨index, hi, _⟩ := hk
  have h := hs.index hi
  have h' := hs.index (he.trans hi)
  exact hne (Option.some.inj (h'.symm.trans h))

end Sound

-- What submitting a solution does to a sound storage.
theorem submits_of_submit (h : s.submit_and_digest_subtree_solution id p = .ok s') :
    s.Knows id ∧ s.Submits id p s' := by
  have hk := knows_of_submit h
  obtain ⟨_, h', hs⟩ := submit_ok (p := p) hk
  cases h.symm.trans h'
  exact ⟨hk, hs⟩

theorem Submits.grows (hs : s.Sound ids) (h : s.Submits id p s') (hk : s.Knows id) :
    s.Grows s' where
  knows     := by simp [Knows, h.index, h.length]
  solutions := by
    intro id'
    by_cases he : id' = id
    case pos => exact he ▸ h.solutions ▸ Finset.subset_insert ..
    case neg => exact (hs.solutions_ne h hk he).superset

theorem Digests.sound (h : s.Digests id s') (hs : s.Sound ids) :
    s'.Sound ids ∧ s.Grows s' ∧ ∀ id' ≠ id, s'.solutions id' = s.solutions id' := by
  induction h with
  | refl => exact ⟨hs, .refl, fun _ _ => rfl⟩
  | tail _ h ih =>
    obtain ⟨p, h⟩ := h
    obtain ⟨hs, hg, hne⟩ := ih
    obtain ⟨hk, hsub⟩ := submits_of_submit h
    refine ⟨hs.submit h, hg.trans (hsub.grows hs hk), fun id' he => ?_⟩
    rw [hs.solutions_ne hsub hk he, hne id' he]

theorem make_old_eq (h : s.make_old p = .ok s') :
    s' = { s with new_local := s.new_local.erase p, old_local := insert p s.old_local } := by
  simp only [make_old, SyncResult.bind_eq_ok] at h
  obtain ⟨_, _, _, _, h⟩ := h
  cases h
  rfl

end SolutionStorage

-- A component and the native only submit solutions of their own.
namespace BranchingProtoComponent

variable {S : Type} {pd : ProtocolDescription S} {cid : ComponentId} {rctx rctx' : RoundCtx}
variable {c c' : BranchingProtoComponent S} {a : Act}

theorem step_digests (h : c.step pd cid rctx a = .ok (rctx', c')) :
    rctx.solution_storage.Digests (.localComponent cid) rctx'.solution_storage := by
  cases step_cases h
  case run hh =>
    cases hh
    case ends hs => exact hs.digests
    all_goals exact .refl
  all_goals exact .refl

end BranchingProtoComponent

namespace BranchingNative

variable {cu_ports : PortInfoMap} {cid : ComponentId} {native_spec_var : SpecVar} {index : Nat}
variable {batch : NativeBatch} {order : BatchOrder} {rctx rctx' : RoundCtx}
variable {native native' : BranchingNative} {batches : List (NativeBatch × BatchOrder)}

theorem start_batch_cases
    (h : start_batch cu_ports cid native_spec_var index batch order rctx native =
      .ok (rctx', native')) : rctx'.ips = rctx.ips ∧
    rctx.solution_storage.Digests (.localComponent cid) rctx'.solution_storage := by
  simp only [start_batch, SyncResult.bind_eq_ok] at h
  obtain ⟨maybe, _, h⟩ := h
  cases maybe
  case none =>
    cases h
    exact ⟨rfl, .refl⟩
  case some p =>
    simp only [SyncResult.bind_eq_ok] at h
    obtain ⟨_, _, rctx₁, hsend, rctx₂, hsubmit, _, _, h⟩ := h
    cases h
    obtain ⟨_, hs⟩ := submit_if_ended_cases hsubmit
    have hips := hs.ips
    have hd := hs.digests
    rw [send_puts_rest hsend] at hips hd
    exact ⟨hips, hd⟩

theorem start_batches_cases
    (h : start_batches cu_ports cid native_spec_var index batches (rctx, native) =
      .ok (rctx', native')) : rctx'.ips = rctx.ips ∧
    rctx.solution_storage.Digests (.localComponent cid) rctx'.solution_storage := by
  induction batches generalizing index rctx native with
  | nil =>
    cases h
    exact ⟨rfl, .refl⟩
  | cons b batches ih =>
    obtain ⟨⟨rctx₁, native₁⟩, h₁, h₂⟩ := SyncResult.bind_eq_ok.mp h
    obtain ⟨hips₁, hd₁⟩ := start_batch_cases h₁
    obtain ⟨hips₂, hd₂⟩ := ih h₂
    exact ⟨hips₂.trans hips₁, hd₁.trans hd₂⟩

end BranchingNative
end Reowolf
