import Mathlib.Data.List.Forall2
import Reowolf.Runtime.Solutions

namespace Reowolf
namespace SolutionStorage

-- The iterator is run to its end. The set it drains has no order of its own, so the order in which
-- it yields the solutions is a choice.
def iter_new_local_make_old (s : SolutionStorage) (order : List Predicate) :
    SyncResult SolutionStorage := do
  SyncResult.choose (order.Nodup ∧ order.toFinset = s.new_local)
  order.foldlM make_old s

inductive Call
  | submit_and_digest_subtree_solution (subtree_id : SubtreeId) (predicate : Predicate)
  | iter_new_local_make_old (order : List Predicate)
deriving DecidableEq

namespace Call

def run (s : SolutionStorage) : Call → SyncResult SolutionStorage
  | submit_and_digest_subtree_solution id p => s.submit_and_digest_subtree_solution id p
  | iter_new_local_make_old order           => s.iter_new_local_make_old order

def yielded : Call → List Predicate
  | submit_and_digest_subtree_solution _ _ => []
  | iter_new_local_make_old order          => order

-- Solutions are only submitted for the given subtrees.
def Within (ids : List SubtreeId) (calls : List Call) : Prop :=
  ∀ id p, submit_and_digest_subtree_solution id p ∈ calls → id ∈ ids

-- The calls submit the solution for the subtree.
def Submitted (calls : List Call) (id : SubtreeId) (p : Predicate) : Prop :=
  submit_and_digest_subtree_solution id p ∈ calls

end Call

open Call (Within Submitted)

-- The solution is the union of one predicate of each set.
def Made (sets : List (Finset Predicate)) (q : Predicate) : Prop :=
  ∃ ps, List.Forall₂ (· ∈ ·) ps sets ∧ q.Unites {p | p ∈ ps}

variable {s s' : SolutionStorage} {ids : List SubtreeId} {id : SubtreeId}
variable {p q : Predicate} {set : Finset Predicate} {sets left right : List (Finset Predicate)}
variable {order : List Predicate} {calls done later : List Call}

-- The union of a list of predicates goes through that of its first two.
theorem unites_cons_cons {p' : Predicate} {ps : List Predicate} :
    (∃ e, p'.union_with p = some e ∧ q.Unites {x | x ∈ e :: ps}) ↔
    q.Unites {x | x ∈ p :: p' :: ps} := by
  simp only [Predicate.union_with_eq_some_iff]
  constructor
  case mp =>
    rintro ⟨e, he, hq⟩ var val
    have he := Predicate.Unites.pair.mp he var val
    simp only [hq var val, Set.mem_ofPred_eq, List.mem_cons, exists_eq_or_imp, he]
    tauto
  case mpr =>
    intro h
    have hp : p ⊆ q := h.subset (.head _)
    have hp' : p' ⊆ q := h.subset (.tail _ (.head _))
    have hc : Predicate.Compatible p' p := .of_subset hp' hp
    have hu : (Predicate.union p' p).Unites {p', p} :=
      Predicate.Unites.pair.mpr fun _ _ => Predicate.query_union_eq_some hc
    refine ⟨_, hu, fun var val => ?_⟩
    have hu := Predicate.Unites.pair.mp hu var val
    simp only [h var val, Set.mem_ofPred_eq, List.mem_cons, exists_eq_or_imp, hu]
    tauto

-- The recursion visits all combinations through the given predicate.
theorem mem_elaborate_iff : q ∈ elaborate_into_new_local_rec p sets ↔
    ∃ ps, List.Forall₂ (· ∈ ·) ps sets ∧ q.Unites {x | x ∈ p :: ps} := by
  induction sets generalizing p with
  | nil =>
    have hp : p.Unites {x | x ∈ [p]} := by
      intro var val
      simp
    simp only [elaborate_into_new_local_rec, Finset.mem_singleton, List.forall₂_nil_right_iff,
      exists_eq_left]
    exact ⟨fun h => h ▸ hp, fun h => h.unique hp⟩
  | cons set sets ih =>
    simp only [elaborate_into_new_local_rec, Finset.mem_biUnion, List.forall₂_cons_right_iff]
    constructor
    case mp =>
      rintro ⟨p', hm, hq⟩
      split at hq
      case h_2 => cases Finset.notMem_empty _ hq
      case h_1 e he =>
        obtain ⟨ps, hps, hq⟩ := ih.mp hq
        exact ⟨p' :: ps, ⟨p', ps, hm, hps, rfl⟩, unites_cons_cons.mp ⟨e, he, hq⟩⟩
    case mpr =>
      rintro ⟨_, ⟨p', ps, hm, hps, hcons⟩, hq⟩
      subst hcons
      obtain ⟨e, he, hq⟩ := unites_cons_cons.mpr hq
      refine ⟨p', hm, ?_⟩
      rw [he]
      exact ih.mpr ⟨ps, hps, hq⟩

-- A combination of all sets is one through some predicate of a set in the middle.
theorem made_middle :
    Made (left ++ set :: right) q ↔
    ∃ p ∈ set, q ∈ elaborate_into_new_local_rec p (left ++ right) := by
  have hmem (p : Predicate) (l r : List Predicate) :
      {x | x ∈ l ++ p :: r} = {x | x ∈ p :: (l ++ r)} := by
    ext x
    simp only [Set.mem_ofPred_eq, List.mem_append, List.mem_cons]
    tauto
  simp only [mem_elaborate_iff]
  constructor
  case mp =>
    rintro ⟨ps, hps, hq⟩
    have hl := List.forall₂_take_append _ _ _ hps
    have hr := List.forall₂_drop_append _ _ _ hps
    rw [← List.take_append_drop left.length ps] at hq
    generalize List.take left.length ps = l at hl hq
    generalize List.drop left.length ps = r at hr hq
    cases hr
    case cons p r hp hr => exact ⟨p, hp, l ++ r, List.rel_append hl hr, hmem p l r ▸ hq⟩
  case mpr =>
    rintro ⟨p, hp, ps, hps, hq⟩
    have hl := List.forall₂_take_append _ _ _ hps
    have hr := List.forall₂_drop_append _ _ _ hps
    rw [← List.take_append_drop left.length ps, ← hmem] at hq
    exact ⟨_, List.rel_append hl (.cons hp hr), hq⟩

-- A new predicate adds the combinations through it.
theorem made_insert :
    Made (left ++ insert p set :: right) q ↔
    Made (left ++ set :: right) q ∨ q ∈ elaborate_into_new_local_rec p (left ++ right) := by
  simp only [made_middle, Finset.mem_insert, exists_eq_or_imp]
  exact or_comm

-- The sets of a sound storage are those of its subtrees, in the order of their ids.
theorem Sound.subtree_solutions_eq (hs : s.Sound ids) (hn : ids.Nodup) :
    s.subtree_solutions = ids.map s.solutions := by
  apply List.ext_getElem
  case hl => rw [hs.length, List.length_map]
  case h =>
    intro i hi hi'
    have hlt : i < ids.length := hs.length ▸ hi
    obtain ⟨index, hindex⟩ := hs.known (List.getElem_mem hlt)
    obtain ⟨hlt', he⟩ := List.getElem?_eq_some_iff.mp (hs.index hindex)
    have he : index = i := (List.Nodup.getElem_inj_iff hn).mp he
    subst he
    simp [solutions, hindex, hi]

-- The iterator moves the solutions, and its assertion holds, as long as none of them is old.
theorem foldlM_make_old (hn : order.Nodup) (h : ∀ q ∈ order, q ∈ s.new_local ∧ q ∉ s.old_local) :
    order.foldlM make_old s = .ok { s with
      new_local := s.new_local \ order.toFinset
      old_local := s.old_local ∪ order.toFinset } := by
  induction order generalizing s with
  | nil =>
    simp only [List.foldlM_nil, List.toFinset_nil, Finset.sdiff_empty, Finset.union_empty]
    rfl
  | cons q order ih =>
    obtain ⟨hq, hn⟩ := List.nodup_cons.mp hn
    obtain ⟨hnew, hold⟩ := h q (.head _)
    rw [List.foldlM_cons]
    have hstep : s.make_old q = .ok { s with
        new_local := s.new_local.erase q, old_local := insert q s.old_local } := by
      simp only [make_old, SyncResult.choose_pos hnew, SyncResult.assert_pos hold,
        SyncResult.ok_bind]
      rfl
    have hrest : ∀ q' ∈ order, q' ∈ s.new_local.erase q ∧ q' ∉ insert q s.old_local := by
      intro q' hq'
      have hne : q' ≠ q := fun he => hq (he ▸ hq')
      obtain ⟨hnew', hold'⟩ := h q' (.tail _ hq')
      exact ⟨Finset.mem_erase.mpr ⟨hne, hnew'⟩, by simp [hne, hold']⟩
    rw [hstep, SyncResult.ok_bind, ih hn hrest]
    congr 2 <;> ext x <;> simp only [List.toFinset_cons, Finset.mem_sdiff, Finset.mem_erase,
      Finset.mem_insert, Finset.mem_union] <;> tauto

-- What holds of a storage for the subtrees after some calls.
structure Digested (ids : List SubtreeId) (calls : List Call) (s : SolutionStorage) : Prop where
  sound     : s.Sound ids
  submitted : ∀ {id}, id ∈ ids → ∀ p, p ∈ s.solutions id ↔ Submitted calls id p
  disjoint  : Disjoint s.old_local s.new_local
  made      : ∀ q, q ∈ s.old_local ∪ s.new_local ↔ ids ≠ [] ∧ Made s.subtree_solutions q
  once      : ∀ q, (calls.flatMap Call.yielded).count q = if q ∈ s.old_local then 1 else 0

-- Solutions are only added, and solutions that are old remain so.
structure Extends (s s' : SolutionStorage) : Prop where
  subtrees : ∀ id, s.solutions id ⊆ s'.solutions id
  locals   : s.old_local ∪ s.new_local ⊆ s'.old_local ∪ s'.new_local
  old      : s.old_local ⊆ s'.old_local

theorem Extends.refl : s.Extends s :=
  ⟨fun _ => subset_rfl, subset_rfl, subset_rfl⟩

theorem Extends.trans {s₁ : SolutionStorage} (h : s.Extends s₁) (h' : s₁.Extends s') :
    s.Extends s' :=
  ⟨fun id => (h.subtrees id).trans (h'.subtrees id), h.locals.trans h'.locals, h.old.trans h'.old⟩

theorem not_made_of_empty (h : ∅ ∈ sets) : ¬Made sets q := by
  rintro ⟨ps, hps, hq⟩
  clear hq
  induction hps with
  | nil => cases h
  | cons hp _ ih =>
    cases h
    case head   => exact Finset.notMem_empty _ hp
    case tail h => exact ih h

theorem new_digested : Digested ids [] (new ids) where
  sound     := new_sound
  submitted := by
    intro id hid p
    have hempty : (new ids).solutions id = ∅ := by
      simp only [solutions, new, List.getElem?_map]
      cases ((ids.zipIdx.foldl (fun m x => m.insert x.1 x.2) ∅ : HashMap SubtreeId Nat).get? id) with
      | none => rfl
      | some index => cases h : ids[index]? <;> simp [h]
    simp [hempty, Submitted]
  disjoint  := Finset.disjoint_empty_left _
  made      := by
    intro q
    simp only [new, Finset.union_empty, Finset.notMem_empty, false_iff, not_and]
    intro hne
    obtain ⟨id, hid⟩ := List.exists_mem_of_ne_nil ids hne
    exact not_made_of_empty (List.mem_map.mpr ⟨id, hid, rfl⟩)
  once      := by simp [new]

namespace Digested

-- What a submission does to the vector of sets and to the local solutions.
theorem submit_cases (h : s.submit_and_digest_subtree_solution id p = .ok s') :
    ∃ left set right, s.subtree_solutions = left ++ set :: right ∧
      (p ∈ set ∧ s' = s ∨
        s' = { s with
          subtree_solutions := left ++ insert p set :: right
          new_local         := s.new_local ∪
            (elaborate_into_new_local_rec p (left ++ right)).filter (· ∉ s.old_local) }) := by
  simp only [submit_and_digest_subtree_solution, SyncResult.bind_eq_ok,
    SyncResult.unwrap_eq_ok] at h
  obtain ⟨index, _, set, hset, h⟩ := h
  obtain ⟨hlt, he⟩ := List.getElem?_eq_some_iff.mp hset
  refine ⟨s.subtree_solutions.take index, set, s.subtree_solutions.drop (index + 1), ?_, ?_⟩
  · rw [← he, List.getElem_cons_drop hlt, List.take_append_drop]
  · split at h
    case isTrue hm =>
      cases h
      exact .inl ⟨hm, rfl⟩
    case isFalse =>
      cases h
      exact .inr (by rw [List.set_eq_take_append_cons_drop, if_pos hlt])

theorem locals_of_submit (hd : Disjoint s.old_local s.new_local)
    (hm : ∀ q, q ∈ s.old_local ∪ s.new_local ↔ ids ≠ [] ∧ Made s.subtree_solutions q)
    (hne : ids ≠ []) (h : s.submit_and_digest_subtree_solution id p = .ok s') :
    Disjoint s'.old_local s'.new_local ∧
    (∀ q, q ∈ s'.old_local ∪ s'.new_local ↔ ids ≠ [] ∧ Made s'.subtree_solutions q) ∧
    s.old_local ∪ s.new_local ⊆ s'.old_local ∪ s'.new_local ∧ s'.old_local = s.old_local := by
  obtain ⟨left, set, right, hsets, hc⟩ := submit_cases h
  cases hc
  case inl hc =>
    obtain ⟨_, he⟩ := hc
    subst he
    exact ⟨hd, hm, subset_rfl, rfl⟩
  case inr he =>
    subst he
    refine ⟨?_, fun q => ?_, ?_, rfl⟩
    · rw [Finset.disjoint_union_right]
      refine ⟨hd, Finset.disjoint_left.mpr fun q hq hq' => ?_⟩
      exact (Finset.mem_filter.mp hq').right hq
    · have hm := hm q
      rw [hsets] at hm
      simp only [made_insert, Finset.mem_union, Finset.mem_filter] at hm ⊢
      tauto
    · exact Finset.union_subset_union_right Finset.subset_union_left

theorem submit (h : Digested ids calls s) (hid : id ∈ ids)
    (hs : s.submit_and_digest_subtree_solution id p = .ok s') :
    Digested ids (calls ++ [.submit_and_digest_subtree_solution id p]) s' ∧ s.Extends s' := by
  obtain ⟨hk, hsub⟩ := submits_of_submit hs
  have hgrows := hsub.grows h.sound hk
  obtain ⟨hd, hm, hl, ho⟩ :=
    locals_of_submit h.disjoint h.made (List.ne_nil_of_mem hid) hs
  constructor
  case right => exact ⟨hgrows.solutions, hl, ho.superset⟩
  case left =>
    refine ⟨h.sound.submit hs, fun {id'} hid' p' => ?_, hd, hm, fun q => ?_⟩
    · by_cases he : id' = id
      case pos =>
        subst he
        rw [hsub.solutions, Finset.mem_insert, h.submitted hid']
        simp [Submitted, or_comm]
      case neg =>
        rw [h.sound.solutions_ne hsub hk he, h.submitted hid']
        simp [Submitted, he]
    · rw [ho, ← h.once q]
      simp [Call.yielded]

theorem iter (h : Digested ids calls s) (ho : order.Nodup) (hnew : order.toFinset = s.new_local) :
    ∃ s', s.iter_new_local_make_old order = .ok s' ∧
      Digested ids (calls ++ [.iter_new_local_make_old order]) s' ∧ s.Extends s' ∧
      s'.new_local = ∅ ∧ s'.old_local = s.old_local ∪ s.new_local := by
  have hmem (q : Predicate) : q ∈ order ↔ q ∈ s.new_local := by
    rw [← hnew, List.mem_toFinset]
  have hfresh : ∀ q ∈ order, q ∈ s.new_local ∧ q ∉ s.old_local :=
    fun q hq => ⟨(hmem q).mp hq, Finset.disjoint_right.mp h.disjoint ((hmem q).mp hq)⟩
  have hrun : s.iter_new_local_make_old order = .ok { s with
      new_local := s.new_local \ s.new_local, old_local := s.old_local ∪ s.new_local } := by
    rw [iter_new_local_make_old, SyncResult.choose_pos ⟨ho, hnew⟩, SyncResult.ok_bind,
      foldlM_make_old ho hfresh, hnew]
  refine ⟨_, hrun, ?_, ?_, Finset.sdiff_self s.new_local, rfl⟩
  · refine ⟨⟨h.sound.index, h.sound.known, h.sound.length, fun hq => ?_⟩, fun hid p => ?_,
      ?_, fun q => ?_, fun q => ?_⟩
    · apply h.sound.supports
      simpa using hq
    · refine (h.submitted hid p).trans ?_
      simp [Submitted]
    · simp
    · simpa using h.made q
    · have hq := h.once q
      have hc : order.count q = if q ∈ s.new_local then 1 else 0 := by
        simp only [← hmem q]
        exact List.Nodup.count ho
      have hd : q ∈ s.old_local → q ∉ s.new_local := fun hq => Finset.disjoint_left.mp h.disjoint hq
      simp only [List.flatMap_append, List.count_append, hq, List.flatMap_cons, Call.yielded,
        List.flatMap_nil, List.append_nil, hc, Finset.mem_union]
      split <;> simp_all
  · exact ⟨fun _ => subset_rfl, by simp, Finset.subset_union_left⟩

-- A call of a program that only submits for the given subtrees does not panic.
theorem call {c : Call} (h : Digested ids calls s) (hc : Within ids [c]) :
    (c.run s = .error .invalid) ∨
    ∃ s', c.run s = .ok s' ∧ Digested ids (calls ++ [c]) s' ∧ s.Extends s' := by
  cases c with
  | submit_and_digest_subtree_solution id p =>
    have hid := hc id p (.head _)
    obtain ⟨s', hs, _⟩ := submit_ok (p := p) (h.sound.knows hid)
    exact .inr ⟨s', hs, h.submit hid hs⟩
  | iter_new_local_make_old order =>
    by_cases ho : order.Nodup ∧ order.toFinset = s.new_local
    case pos =>
      obtain ⟨s', hs, hd, he, _⟩ := h.iter ho.left ho.right
      exact .inr ⟨s', hs, hd, he⟩
    case neg =>
      refine .inl ?_
      simp only [Call.run, iter_new_local_make_old, SyncResult.choose, if_neg ho]
      rfl

theorem run (h : Digested ids done s) (hc : Within ids calls) :
    (calls.foldlM Call.run s = .error .invalid) ∨
    ∃ s', calls.foldlM Call.run s = .ok s' ∧ Digested ids (done ++ calls) s' ∧ s.Extends s' := by
  induction calls generalizing done s with
  | nil => exact .inr ⟨s, rfl, by simpa using h, .refl⟩
  | cons c calls ih =>
    rw [List.foldlM_cons]
    have hhd : Within ids [c] := by
      intro id p hm
      apply hc id p
      simpa using Or.inl (List.mem_singleton.mp hm)
    have htl : Within ids calls := fun id p hm => hc id p (.tail _ hm)
    match h.call hhd with
    | .inl he =>
      rw [he]
      exact .inl rfl
    | .inr ⟨s₁, hs, hd, hext⟩ =>
      rw [hs, SyncResult.ok_bind]
      match ih hd htl with
      | .inl he               => exact .inl he
      | .inr ⟨s', hs, hd, he⟩ => exact .inr ⟨s', hs, by simpa using hd, hext.trans he⟩

-- One predicate of each set is one submitted solution of each subtree.
theorem made_iff (h : Digested ids calls s) (hn : ids.Nodup) : Made s.subtree_solutions q ↔
    ∃ ps, List.Forall₂ (fun p id => Submitted calls id p) ps ids ∧ q.Unites {p | p ∈ ps} := by
  rw [h.sound.subtree_solutions_eq hn]
  simp only [Made, List.forall₂_map_right_iff]
  simp only [List.forall₂_iff_zip]
  apply exists_congr
  intro ps
  refine and_congr_left fun _ => and_congr_right fun _ => ?_
  constructor
  case mp  => exact fun hps p id hm => (h.submitted (List.of_mem_zip hm).right p).mp (hps hm)
  case mpr => exact fun hps p id hm => (h.submitted (List.of_mem_zip hm).right p).mpr (hps hm)

end Digested

-- The storage's invariants in every sequence of calls: the solutions of the connector itself, old or
-- new, are the unions of one submitted solution of each subtree, if there is a subtree. They remain,
-- and each is yielded once.
theorem local_solutions (ids : List SubtreeId) (calls : List Call) (hn : ids.Nodup)
    (hc : Within ids calls) :
    (∀ site, calls.foldlM Call.run (new ids) ≠ .error (.panic site)) ∧
    ∀ s, calls.foldlM Call.run (new ids) = .ok s →
      Disjoint s.old_local s.new_local ∧
      (∀ q, q ∈ s.old_local ∪ s.new_local ↔ ids ≠ [] ∧
        ∃ ps, List.Forall₂ (fun p id => Submitted calls id p) ps ids ∧ q.Unites {p | p ∈ ps}) ∧
      (∀ q, (calls.flatMap Call.yielded).count q = if q ∈ s.old_local then 1 else 0) ∧
      (∀ order, order.Nodup → order.toFinset = s.new_local →
        ∃ s', s.iter_new_local_make_old order = .ok s' ∧ s'.new_local = ∅ ∧
          s'.old_local = s.old_local ∪ s.new_local) ∧
      ∀ later s', Within ids later → later.foldlM Call.run s = .ok s' → s.Extends s' := by
  have hrun := new_digested.run hc
  constructor
  case left =>
    intro site he
    rw [he] at hrun
    cases hrun
    case inl h => cases h
    case inr h => exact nomatch h.choose_spec.left
  case right =>
    intro s hs
    rw [hs] at hrun
    match hrun with
    | .inr ⟨_, rfl, hd, _⟩ =>
      refine ⟨hd.disjoint, fun q => ?_, hd.once, fun order ho hnew => ?_, fun later s' hl hs' => ?_⟩
      · rw [hd.made, hd.made_iff hn, List.nil_append]
      · obtain ⟨s', hs, _, _, h⟩ := hd.iter ho hnew
        exact ⟨s', hs, h⟩
      · match hd.run hl with
        | .inl he            => exact nomatch he.symm.trans hs'
        | .inr ⟨_, h, _, he⟩ =>
          cases h.symm.trans hs'
          exact he

-- A native and a neighbor: the connector's solution is the union of theirs.
theorem local_solutions_of_two :
    let ids : List SubtreeId := [.localComponent ⟨0, 0⟩, .netEndpoint 0]
    let p := Predicate.singleton ⟨0, 0⟩ SpecVal.FIRING
    let q := Predicate.singleton ⟨0, 1⟩ SpecVal.SILENT
    let calls := [.submit_and_digest_subtree_solution (.localComponent ⟨0, 0⟩) p,
      .submit_and_digest_subtree_solution (.netEndpoint 0) q,
      .iter_new_local_make_old [q.inserted ⟨0, 0⟩ SpecVal.FIRING]]
    ∃ s, calls.foldlM Call.run (new ids) = .ok s ∧
      s.old_local = {q.inserted ⟨0, 0⟩ SpecVal.FIRING} ∧ Disjoint s.old_local s.new_local := by
  intro ids p q calls
  have hc : Within ids calls := by
    intro id p hm
    simp only [calls, List.mem_cons, Call.submit_and_digest_subtree_solution.injEq, reduceCtorEq,
      List.not_mem_nil, or_false, or_self] at hm
    simp only [ids, List.mem_cons, List.not_mem_nil, or_false]
    exact hm.imp And.left And.left
  have h := (local_solutions ids calls (by decide) hc).right
  exact ⟨_, rfl, by decide, (h _ rfl).left⟩

-- Without subtrees there is nothing to unite, and the union of nothing is not a solution.
theorem no_solutions_without_subtrees :
    ¬∀ (ids : List SubtreeId) (calls : List Call) (s : SolutionStorage), ids.Nodup →
      Within ids calls → calls.foldlM Call.run (new ids) = .ok s →
      ∀ q, q ∈ s.old_local ∪ s.new_local ↔
        ∃ ps, List.Forall₂ (fun p id => Submitted calls id p) ps ids ∧ q.Unites {p | p ∈ ps} := by
  intro h
  have hu : (∅ : Predicate).Unites {p | p ∈ ([] : List Predicate)} := by
    intro var val
    simp
  have hm := (h [] [] (new []) List.nodup_nil nofun rfl ∅).mpr ⟨[], .nil, hu⟩
  exact Finset.notMem_empty _ hm

end SolutionStorage
end Reowolf
