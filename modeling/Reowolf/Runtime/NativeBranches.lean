import Reowolf.Runtime.Native

namespace Reowolf

-- A payload message that is delivered to a getter.
abbrev Delivery :=
  PortId × SendPayloadMsg

namespace BranchingNative

-- A predicate that is put together from `p₀` and the messages `ds`, which are consistent with each
-- other and with `p₀`, and whose getters `p₀` marks as firing.
structure Union (p₀ : Predicate) (ds : Set Delivery) (p : Predicate) : Prop where
  firing     : ∀ d ∈ ds, p₀.query d.1 = some .FIRING
  with_p₀    : ∀ d ∈ ds, Predicate.Compatible p₀ d.2.predicate
  consistent : ∀ d ∈ ds, ∀ d' ∈ ds, Predicate.Compatible d.2.predicate d'.2.predicate
  query      : ∀ {var val}, p.query var = some val ↔
               p₀.query var = some val ∨ ∃ d ∈ ds, d.2.predicate.query var = some val

-- The same from the point of view of `p`: it extends `p₀`, and whatever it adds to it comes from a
-- message that it covers.
structure Generated (p₀ : Predicate) (ds : List Delivery) (p : Predicate) : Prop where
  base    : p₀ ⊆ p
  covered : ∀ {var val}, p.query var = some val → p₀.query var = some val ∨
            ∃ d ∈ ds, p₀.query d.1 = some .FIRING ∧ d.2.predicate ⊆ p ∧
            d.2.predicate.query var = some val

variable {p₀ p p' : Predicate} {ds : List Delivery} {d : Delivery}

theorem generated_iff : Generated p₀ ds p ↔ ∃ s : Set Delivery, (∀ d ∈ s, d ∈ ds) ∧ Union p₀ s p := by
  constructor
  case mp =>
    intro h
    refine ⟨{d | d ∈ ds ∧ p₀.query d.1 = some .FIRING ∧ d.2.predicate ⊆ p}, fun d hd => hd.left, ?_⟩
    refine ⟨fun d hd => hd.right.left, fun d hd => .of_subset h.base hd.right.right,
      fun d hd d' hd' => .of_subset hd.right.right hd'.right.right, fun {var val} => ⟨?_, ?_⟩⟩
    · intro hq
      cases h.covered hq
      case inl hq => exact .inl hq
      case inr hq =>
        obtain ⟨d, hm, hf, hs, hq⟩ := hq
        exact .inr ⟨d, ⟨hm, hf, hs⟩, hq⟩
    · intro hq
      cases hq
      case inl hq => exact h.base var val hq
      case inr hq =>
        obtain ⟨d, hd, hq⟩ := hq
        exact hd.right.right var val hq
  case mpr =>
    rintro ⟨s, hs, h⟩
    refine ⟨fun var val hq => h.query.mpr (.inl hq), fun hq => ?_⟩
    cases h.query.mp hq
    case inl hq => exact .inl hq
    case inr hq =>
      obtain ⟨d, hd, hq⟩ := hq
      exact .inr ⟨d, hs d hd, h.firing d hd, fun var val hq => h.query.mpr (.inr ⟨d, hd, hq⟩), hq⟩

namespace Generated

theorem self : Generated p₀ ds p₀ :=
  ⟨Predicate.Subset.refl _, .inl⟩

theorem mono {ds' : List Delivery} (h : Generated p₀ ds p) (hs : ∀ d ∈ ds, d ∈ ds') :
    Generated p₀ ds' p :=
  ⟨h.base, fun hq => (h.covered hq).imp_right (Exists.imp fun d h => ⟨hs d h.1, h.2⟩)⟩

theorem union (h : Generated p₀ ds p) (hd : d ∈ ds) (hf : p₀.query d.1 = some .FIRING)
    (hc : Predicate.Compatible p d.2.predicate) :
    Generated p₀ ds (Predicate.union p d.2.predicate) where
  base    := Predicate.Subset.trans h.base (Predicate.subset_union_left hc)
  covered := by
    intro var val hq
    cases (Predicate.query_union_eq_some hc).mp hq
    case inl hq =>
      refine (h.covered hq).imp_right ?_
      rintro ⟨d', hd', hf', hs, hq⟩
      exact ⟨d', hd', hf', Predicate.Subset.trans hs (Predicate.subset_union_left hc), hq⟩
    case inr hq => exact .inr ⟨d, hd, hf, Predicate.subset_union_right, hq⟩

-- The most informed predicate below `p` covers every message that `p` covers.
theorem greatest (h : p₀ ⊆ p) : ∃ q, Generated p₀ ds q ∧ q ⊆ p ∧
    ∀ d ∈ ds, p₀.query d.1 = some .FIRING → d.2.predicate ⊆ p → d.2.predicate ⊆ q := by
  induction ds with
  | nil => exact ⟨p₀, .self, h, nofun⟩
  | cons d ds ih =>
    obtain ⟨q, hq, hqp, hcov⟩ := ih
    have hq : Generated p₀ (d :: ds) q := hq.mono fun _ hd => .tail _ hd
    by_cases hd : p₀.query d.1 = some .FIRING ∧ d.2.predicate ⊆ p
    case neg =>
      refine ⟨q, hq, hqp, fun d' hd' hf hs => ?_⟩
      cases hd'
      case head     => exact absurd ⟨hf, hs⟩ hd
      case tail hd' => exact hcov d' hd' hf hs
    case pos =>
      have hc := Predicate.Compatible.of_subset hqp hd.right
      refine ⟨_, hq.union (.head _) hd.left hc, Predicate.union_subset hqp hd.right, ?_⟩
      intro d' hd' hf hs
      cases hd'
      case head     => exact Predicate.subset_union_right
      case tail hd' => exact Predicate.Subset.trans (hcov d' hd' hf hs) (Predicate.subset_union_left hc)

end Generated
-- A branch that has received the message.
def fed (d : Delivery) (b : NativeBranch) : NativeBranch :=
  { b with to_get := b.to_get.erase d.1, gotten := b.gotten.insert d.1 d.2.payload }

-- What visiting a branch inserts into the finished branches.
def contributions (d : Delivery) : Predicate × NativeBranch → List (Predicate × NativeBranch)
  | (p, b) =>
    if p.query d.1 ≠ some .FIRING then [(p, b)]
    else
      match p.assignment_union d.2.predicate with
      | .nonexistant                  => [(p, b)]
      | .equivalent | .formerNotLatter => [(p, fed d b)]
      | .latterNotFormer              => [(p, b), (d.2.predicate, fed d b)]
      | .new p'                       => [(p, b), (p', fed d b)]

-- The branch takes the message, and it does so under the predicate `p'`.
structure Takes (d : Delivery) (p p' : Predicate) : Prop where
  firing     : p.query d.1 = some .FIRING
  compatible : Predicate.Compatible p d.2.predicate
  union      : p' = Predicate.union p d.2.predicate

section

variable {b c : NativeBranch} {k : Predicate} {cid : ComponentId}

theorem Takes.covers (h : Takes d p p') : d.2.predicate ⊆ p' :=
  h.union ▸ Predicate.subset_union_right

theorem Takes.extends (h : Takes d p p') : p ⊆ p' :=
  h.union ▸ Predicate.subset_union_left h.compatible

theorem takes_iff (hf : p.query d.1 = some .FIRING) (hc : Predicate.Compatible p d.2.predicate) :
    Takes d p k ↔ k = Predicate.union p d.2.predicate :=
  ⟨Takes.union, (⟨hf, hc, ·⟩)⟩

theorem takes_iff_self (hf : p.query d.1 = some .FIRING) (hs : d.2.predicate ⊆ p) :
    Takes d p k ↔ k = p := by
  rw [takes_iff hf (.of_subset (Predicate.Subset.refl _) hs), Predicate.union_eq_left hs]

theorem takes_iff_msg (hf : p.query d.1 = some .FIRING) (hs : p ⊆ d.2.predicate) :
    Takes d p k ↔ k = d.2.predicate := by
  rw [takes_iff hf (.of_subset hs (Predicate.Subset.refl _)), Predicate.union_eq_right hs]

theorem mem_contributions : (k, c) ∈ contributions d (p, b) ↔
    (k = p ∧ c = b ∧ ¬Takes d p p) ∨ (Takes d p k ∧ c = fed d b) := by
  simp only [contributions]
  split
  case isTrue hf =>
    have hn {k} : ¬Takes d p k := fun h => hf h.firing
    simp [hn]
  case isFalse hf =>
    have hf := not_not.mp hf
    have h := Predicate.assignment_union_spec p d.2.predicate
    generalize p.assignment_union d.2.predicate = r at h
    cases h
    case nonexistant h =>
      have hn {k} : ¬Takes d p k := fun ht => h ht.compatible
      simp [hn]
    case equivalent h =>
      have hs : d.2.predicate ⊆ p := h ▸ Predicate.Subset.refl _
      simp [takes_iff_self hf hs]
    case formerNotLatter hs _ => simp [takes_iff_self hf hs]
    case latterNotFormer hs hn =>
      have hp : ¬Takes d p p := fun h => hn h.covers
      simp only [takes_iff_msg hf hs] at hp
      simp [takes_iff_msg hf hs, hp]
    case new hc _ hn =>
      have hp : ¬Takes d p p := fun h => hn h.covers
      simp only [takes_iff hf hc] at hp
      simp [takes_iff hf hc, hp]

-- The payload does not differ from one that the branch has already gotten.
def Accepts (d : Delivery) (b : NativeBranch) : Prop :=
  ∀ was, b.gotten.get? d.1 = some was → was = d.2.payload

theorem submit_if_ended_ok {rctx : RoundCtx}
    (hk : rctx.solution_storage.Knows (.localComponent cid)) :
    ∃ rctx' ps, submit_if_ended cid rctx p b = .ok rctx' ∧
    rctx.Submitted (.localComponent cid) ps rctx' ∧ ∀ q, q ∈ ps ↔ q = p ∧ b.is_ended := by
  unfold submit_if_ended
  split
  case isTrue he =>
    obtain ⟨rctx', hr, hs⟩ := RoundCtx.submit_ok (p := p) hk
    exact ⟨rctx', {p}, hr, hs, by simp [he]⟩
  case isFalse he => exact ⟨rctx, ∅, rfl, .refl, by simp [he]⟩

theorem feed_branch_ok {rctx : RoundCtx} (hk : rctx.solution_storage.Knows (.localComponent cid))
    (ha : Accepts d b) : ∃ rctx' ps, feed_branch cid d.1 d.2 rctx b p = .ok (rctx', fed d b) ∧
    rctx.Submitted (.localComponent cid) ps rctx' ∧ ∀ q, q ∈ ps ↔ q = p ∧ (fed d b).is_ended := by
  have hin : b.gotten.get? d.1 ∈ [none, some d.2.payload] := by
    cases h : b.gotten.get? d.1
    case none     => simp
    case some was => simp [ha was h]
  obtain ⟨rctx', ps, h, hs⟩ := @submit_if_ended_ok p (fed d b) cid rctx hk
  refine ⟨rctx', ps, ?_, hs⟩
  simp only [feed_branch, SyncResult.assert_pos hin, SyncResult.ok_bind]
  show submit_if_ended cid rctx p (fed d b) >>= (fun rctx => pure (rctx, fed d b)) = _
  rw [h]
  rfl

theorem visit_branch_ok {rctx : RoundCtx} {finished : HashMap Predicate NativeBranch}
    (hk : rctx.solution_storage.Knows (.localComponent cid))
    (hv : rctx.spec_var_for d.1 = .ok d.1) (ha : (∃ p', Takes d p p') → Accepts d b) :
    ∃ rctx' ps, visit_branch cid d.1 d.2 rctx finished p b =
      .ok (rctx', finished.insertAll NativeBranch.merge (contributions d (p, b))) ∧
    rctx.Submitted (.localComponent cid) ps rctx' ∧
    ∀ q, q ∈ ps ↔ Takes d p q ∧ (fed d b).is_ended := by
  simp only [visit_branch, hv, SyncResult.ok_bind, contributions]
  split
  case isTrue hf =>
    have hn {k} : ¬Takes d p k := fun h => hf h.firing
    exact ⟨rctx, ∅, rfl, .refl, by simp [hn]⟩
  case isFalse hf =>
    have hf := not_not.mp hf
    have hfeed {k} (ht : ∀ q, Takes d p q ↔ q = k) : ∃ rctx' ps,
        feed_branch cid d.1 d.2 rctx b k = .ok (rctx', fed d b) ∧
        rctx.Submitted (.localComponent cid) ps rctx' ∧
        ∀ q, q ∈ ps ↔ Takes d p q ∧ (fed d b).is_ended := by
      obtain ⟨rctx', ps, h, hs, hps⟩ := feed_branch_ok (p := k) hk (ha ⟨k, (ht k).mpr rfl⟩)
      exact ⟨rctx', ps, h, hs, fun q => by rw [hps, ht]⟩
    have h := Predicate.assignment_union_spec p d.2.predicate
    generalize p.assignment_union d.2.predicate = r at h
    cases h
    case nonexistant h =>
      have hn {k} : ¬Takes d p k := fun ht => h ht.compatible
      exact ⟨rctx, ∅, rfl, .refl, by simp [hn]⟩
    case equivalent h =>
      obtain ⟨rctx', ps, h, hs⟩ := hfeed fun q => takes_iff_self hf (h ▸ Predicate.Subset.refl _)
      exact ⟨rctx', ps, by simp [h, insert_branch_merging, HashMap.insertAll], hs⟩
    case formerNotLatter hs _ =>
      obtain ⟨rctx', ps, h, hs⟩ := hfeed fun q => takes_iff_self hf hs
      exact ⟨rctx', ps, by simp [h, insert_branch_merging, HashMap.insertAll], hs⟩
    case latterNotFormer hs hn =>
      obtain ⟨rctx', ps, h, hs⟩ := hfeed fun q => takes_iff_msg hf hs
      exact ⟨rctx', ps, by simp [h, insert_branch_merging, HashMap.insertAll], hs⟩
    case new hc _ hn =>
      obtain ⟨rctx', ps, h, hs⟩ := hfeed fun q => takes_iff hf hc
      exact ⟨rctx', ps, by simp [h, insert_branch_merging, HashMap.insertAll], hs⟩

-- The branches that a loop visits, in the order of their predicates.
def entries (branches : HashMap Predicate NativeBranch) (order : List Predicate) :
    List (Predicate × NativeBranch) :=
  order.filterMap fun p => (branches.get? p).map (p, ·)

theorem mem_entries {branches : HashMap Predicate NativeBranch} {order : List Predicate} :
    (p, b) ∈ entries branches order ↔ p ∈ order ∧ branches.get? p = some b := by
  simp only [entries, List.mem_filterMap, Option.map_eq_some_iff, Prod.mk.injEq]
  constructor
  case mp =>
    rintro ⟨_, hm, _, hb, hp, he⟩
    exact ⟨hp ▸ hm, hp ▸ he ▸ hb⟩
  case mpr =>
    rintro ⟨hm, hb⟩
    exact ⟨p, hm, b, hb, rfl, rfl⟩

theorem visit_branches_ok {draining : HashMap Predicate NativeBranch} {order : List Predicate}
    {rctx : RoundCtx} {finished : HashMap Predicate NativeBranch}
    (hk : rctx.solution_storage.Knows (.localComponent cid))
    (hv : rctx.spec_var_for d.1 = .ok d.1) (ho : ∀ p ∈ order, ∃ b, draining.get? p = some b)
    (ha : ∀ p b, draining.get? p = some b → (∃ p', Takes d p p') → Accepts d b) :
    ∃ rctx' ps, visit_branches cid d.1 d.2 draining order (rctx, finished) =
      .ok (rctx', finished.insertAll NativeBranch.merge
        ((entries draining order).flatMap (contributions d))) ∧
    rctx.Submitted (.localComponent cid) ps rctx' ∧
    ∀ q, q ∈ ps ↔ ∃ p b, (p, b) ∈ entries draining order ∧ Takes d p q ∧ (fed d b).is_ended := by
  induction order generalizing rctx finished with
  | nil => exact ⟨rctx, ∅, rfl, .refl, by simp [entries]⟩
  | cons p order ih =>
    obtain ⟨⟨b, hb⟩, ho⟩ := List.forall_mem_cons.mp ho
    obtain ⟨rctx₁, ps₁, h₁, hs₁, hps₁⟩ := @visit_branch_ok p d b cid rctx finished hk hv (ha p b hb)
    have hv₁ : rctx₁.spec_var_for d.1 = .ok d.1 := by
      rw [← hv, RoundCtx.spec_var_for, RoundCtx.spec_var_for, hs₁.ips]
    obtain ⟨rctx₂, ps₂, h₂, hs₂, hps₂⟩ := @ih rctx₁
      (finished.insertAll NativeBranch.merge (contributions d (p, b))) (hs₁.knows hk) hv₁ ho
    have hentries : entries draining (p :: order) = (p, b) :: entries draining order := by
      simp [entries, hb]
    refine ⟨rctx₂, ps₁ ∪ ps₂, ?_, hs₁.trans hs₂, fun q => ?_⟩
    · simp only [visit_branches, hb, h₁, SyncResult.ok_bind, h₂, hentries, List.flatMap_cons,
        HashMap.insertAll_append]
    · rw [Finset.mem_union, hps₁, hps₂, hentries]
      simp only [List.mem_cons, Prod.mk.injEq]
      grind

theorem feed_msg_ok {native : BranchingNative} {order : List Predicate} {rctx : RoundCtx}
    {info : PortInfo} (hk : rctx.solution_storage.Knows (.localComponent cid))
    (hi : rctx.ips.port_info.map.get? d.1 = some info) (hp : info.polarity = .getter)
    (ho : Iterates order (Finmap.keys native.branches))
    (ha : ∀ p b, native.branches.get? p = some b → (∃ p', Takes d p p') → Accepts d b) :
    ∃ rctx' ps, feed_msg cid d.1 d.2 rctx native order = .ok (rctx', ⟨HashMap.insertAll
      NativeBranch.merge ∅ ((entries native.branches order).flatMap (contributions d))⟩) ∧
    rctx.Submitted (.localComponent cid) ps rctx' ∧ ∀ q, q ∈ ps ↔
      ∃ p b, native.branches.get? p = some b ∧ Takes d p q ∧ (fed d b).is_ended := by
  have hv : rctx.spec_var_for d.1 = .ok d.1 := by
    simp [RoundCtx.spec_var_for, PortInfoMap.spec_var_for, hi, hp]
  obtain ⟨rctx', ps, h, hs, hps⟩ := @visit_branches_ok d cid native.branches order rctx ∅ hk hv
    (fun p hm => HashMap.mem_keys_iff.mp (ho.mem_iff.mp hm)) ha
  have hpol : rctx.polarity d.1 = .ok .getter := by
    simp [RoundCtx.polarity, hi, hp]
  refine ⟨rctx', ps, ?_, hs, fun q => ?_⟩
  · simp only [feed_msg, SyncResult.choose_pos ho, hpol, SyncResult.assert_pos, h,
      SyncResult.ok_bind]
    rfl
  · rw [hps]
    have hm (p b) : (p, b) ∈ entries native.branches order ↔ native.branches.get? p = some b := by
      rw [mem_entries, ho.mem_iff, HashMap.mem_keys_iff]
      exact ⟨And.right, fun h => ⟨⟨b, h⟩, h⟩⟩
    simp only [hm]

-- What a call of `feed_msg` that returns has done.
section

variable {rctx rctx' : RoundCtx} {finished finished' : HashMap Predicate NativeBranch}
variable {b' : NativeBranch}

theorem submit_if_ended_cases (h : submit_if_ended cid rctx p b = .ok rctx') :
    ∃ ps, rctx.Submitted (.localComponent cid) ps rctx' := by
  unfold submit_if_ended at h
  split at h
  case isTrue => exact ⟨_, RoundCtx.submitted_of_submit h⟩
  case isFalse =>
    cases h
    exact ⟨∅, .refl⟩

theorem feed_branch_cases (h : feed_branch cid d.1 d.2 rctx b p = .ok (rctx', b')) :
    b' = fed d b ∧ Accepts d b ∧ ∃ ps, rctx.Submitted (.localComponent cid) ps rctx' := by
  simp only [feed_branch, SyncResult.bind_eq_ok, SyncResult.assert_eq_ok, SyncResult.pure_eq_ok,
    Prod.mk.injEq] at h
  obtain ⟨_, ha, rctx₁, hs, hr, hb⟩ := h
  subst hr hb
  refine ⟨rfl, fun was hw => ?_, submit_if_ended_cases hs⟩
  simpa [hw] using ha

theorem visit_branch_cases (hv : rctx.spec_var_for d.1 = .ok d.1)
    (h : visit_branch cid d.1 d.2 rctx finished p b = .ok (rctx', finished')) :
    finished' = finished.insertAll NativeBranch.merge (contributions d (p, b)) ∧
    ((∃ p', Takes d p p') → Accepts d b) ∧ ∃ ps, rctx.Submitted (.localComponent cid) ps rctx' := by
  simp only [visit_branch, hv, SyncResult.ok_bind, contributions] at h ⊢
  split at h
  case isTrue hf =>
    cases h
    exact ⟨by simp [hf, insert_branch_merging, HashMap.insertAll], fun h => h.elim fun _ ht => absurd ht.firing hf,
      ∅, .refl⟩
  case isFalse hf =>
    simp only [hf, if_false]
    have hu := Predicate.assignment_union_spec p d.2.predicate
    generalize p.assignment_union d.2.predicate = r at h hu
    cases r <;> simp only [SyncResult.bind_eq_ok, SyncResult.pure_eq_ok, Prod.mk.injEq] at h
    case nonexistant =>
      cases hu
      case nonexistant hn =>
        obtain ⟨hr, hb⟩ := h
        subst hr hb
        exact ⟨rfl, fun h => h.elim fun _ ht => absurd ht.compatible hn, ∅, .refl⟩
    all_goals
      obtain ⟨_, hfed, hr, hb⟩ := h
      obtain ⟨he, ha, hs⟩ := feed_branch_cases hfed
      subst hr hb
      rw [he]
      exact ⟨rfl, fun _ => ha, hs⟩

theorem visit_branches_cases {draining : HashMap Predicate NativeBranch} {order : List Predicate}
    (hv : rctx.spec_var_for d.1 = .ok d.1)
    (h : visit_branches cid d.1 d.2 draining order (rctx, finished) = .ok (rctx', finished')) :
    finished' = finished.insertAll NativeBranch.merge
      ((entries draining order).flatMap (contributions d)) ∧
    (∀ p b, (p, b) ∈ entries draining order → (∃ p', Takes d p p') → Accepts d b) ∧
    ∃ ps, rctx.Submitted (.localComponent cid) ps rctx' := by
  induction order generalizing rctx finished with
  | nil =>
    cases h
    exact ⟨rfl, nofun, ∅, .refl⟩
  | cons p order ih =>
    simp only [visit_branches] at h
    split at h
    case h_1 => cases h
    case h_2 b hb =>
      obtain ⟨⟨rctx₁, finished₁⟩, h₁, h₂⟩ := SyncResult.bind_eq_ok.mp h
      obtain ⟨he₁, ha₁, _, hs₁⟩ := visit_branch_cases hv h₁
      have hv₁ : rctx₁.spec_var_for d.1 = .ok d.1 := by
        rw [← hv, RoundCtx.spec_var_for, RoundCtx.spec_var_for, hs₁.ips]
      obtain ⟨he₂, ha₂, _, hs₂⟩ := ih hv₁ h₂
      have hentries : entries draining (p :: order) = (p, b) :: entries draining order := by
        simp [entries, hb]
      rw [hentries, List.flatMap_cons, HashMap.insertAll_append, ← he₁]
      refine ⟨he₂, fun p' b' hm => ?_, _, hs₁.trans hs₂⟩
      cases hm
      case head    => exact ha₁
      case tail hm => exact ha₂ p' b' hm

theorem feed_msg_cases {native native' : BranchingNative} {order : List Predicate}
    (h : feed_msg cid d.1 d.2 rctx native order = .ok (rctx', native')) :
    native'.branches = HashMap.insertAll NativeBranch.merge ∅
      ((entries native.branches order).flatMap (contributions d)) ∧
    (∀ p b, native.branches.get? p = some b → (∃ p', Takes d p p') → Accepts d b) ∧
    Iterates order (Finmap.keys native.branches) ∧
    ∃ ps, rctx.Submitted (.localComponent cid) ps rctx' := by
  simp only [feed_msg, SyncResult.bind_eq_ok, SyncResult.choose_eq_ok, RoundCtx.polarity,
    SyncResult.unwrap_eq_ok, SyncResult.pure_eq_ok, SyncResult.assert_eq_ok] at h
  obtain ⟨_, ho, _, ⟨info, hi, hpol⟩, _, hp, ⟨rctx₁, finished⟩, hv, h⟩ := h
  cases h
  have hvar : rctx.spec_var_for d.1 = .ok d.1 := by
    simp [RoundCtx.spec_var_for, PortInfoMap.spec_var_for, hi, hpol, hp]
  obtain ⟨he, ha, hs⟩ := visit_branches_cases hvar hv
  refine ⟨he, fun p b hb => ha p b (mem_entries.mpr ⟨?_, hb⟩), ho, hs⟩
  exact ho.mem_iff.mpr (HashMap.mem_keys_iff.mpr ⟨b, hb⟩)

end

end

-- What the predicates of the native's initial branches have in common.
structure Initial (init : HashMap Predicate NativeBranch) : Prop where
  gotten   : ∀ {p b}, init.get? p = some b → b.gotten = ∅
  disjoint : ∀ {p p' b b'}, init.get? p = some b → init.get? p' = some b' →
             Predicate.Compatible p p' → p = p'

-- Compatible messages for one getter carry equal payloads.
def Coherent (ds : List Delivery) : Prop :=
  ∀ {d d'}, d ∈ ds → d' ∈ ds → d.1 = d'.1 → Predicate.Compatible d.2.predicate d'.2.predicate →
  d.2.payload = d'.2.payload

-- A message whose payload a branch with the predicate `p` has, if it stems from `p₀`.
def Gets (p₀ : Predicate) (ds : List Delivery) (p : Predicate) (g : PortId) (v : Payload) : Prop :=
  ∃ msg, (g, msg) ∈ ds ∧ p₀.query g = some .FIRING ∧ msg.predicate ⊆ p ∧ msg.payload = v

-- A branch that stems from a batch and has nothing but payloads of messages that it covers.
def Sound (init : HashMap Predicate NativeBranch) (ds : List Delivery) (p : Predicate)
    (b : NativeBranch) : Prop :=
  ∃ p₀ b₀, init.get? p₀ = some b₀ ∧ Generated p₀ ds p ∧ b.index = b₀.index ∧
  (∀ port, port ∈ b.to_get ↔ port ∈ b₀.to_get ∧ b.gotten.get? port = none) ∧
  ∀ g v, b.gotten.get? g = some v → Gets p₀ ds p g v

def Less (b b' : NativeBranch) : Prop :=
  ∀ g v, b.gotten.get? g = some v → b'.gotten.get? g = some v

-- The branches after the messages `ds` are delivered.
structure Delivers (init : HashMap Predicate NativeBranch) (ds : List Delivery)
    (branches : HashMap Predicate NativeBranch) : Prop where
  sound    : ∀ {p b}, branches.get? p = some b → Sound init ds p b
  complete : ∀ {p₀ b₀ p}, init.get? p₀ = some b₀ → Generated p₀ ds p →
             ∃ b, branches.get? p = some b ∧ ∀ g v, Gets p₀ ds p g v → b.gotten.get? g = some v

section

variable {init branches : HashMap Predicate NativeBranch} {b b' b₀ : NativeBranch}
variable {g : PortId} {v v' : Payload}

theorem Gets.unique (hc : Coherent ds) (h : Gets p₀ ds p g v) (h' : Gets p₀ ds p g v') : v = v' := by
  obtain ⟨_, hm, _, hs, hv⟩ := h
  obtain ⟨_, hm', _, hs', hv'⟩ := h'
  exact hv ▸ hv' ▸ hc hm hm' rfl (.of_subset hs hs')

theorem Initial.unique (hi : Initial init) {b₀' : NativeBranch} {p₀' : Predicate}
    (h : init.get? p₀ = some b₀) (h' : init.get? p₀' = some b₀') (hs : p₀ ⊆ p) (hs' : p₀' ⊆ p) :
    p₀ = p₀' ∧ b₀ = b₀' := by
  have he := hi.disjoint h h' (.of_subset hs hs')
  exact ⟨he, Option.some.inj (h.symm.trans (he ▸ h'))⟩

theorem merge_gotten {old b : NativeBranch} : (old.merge b).gotten.get? g =
    (b.gotten.get? g).or (old.gotten.get? g) :=
  HashMap.get?_override

-- Branches with one predicate stem from one batch.
theorem Sound.merge {old : NativeBranch} (hi : Initial init) (ho : Sound init ds p old)
    (hb : Sound init ds p b) : Sound init ds p (old.merge b) := by
  obtain ⟨p₀, b₀, hp₀, hgen, hindex, hto, hgot⟩ := ho
  obtain ⟨p₀', b₀', hp₀', hgen', _, hto', hgot'⟩ := hb
  obtain ⟨hp, hb⟩ := hi.unique hp₀ hp₀' hgen.base hgen'.base
  subst hp hb
  refine ⟨p₀, b₀, hp₀, hgen, hindex, fun port => ?_, fun g v hg => ?_⟩
  · have := hto port
    rw [merge_gotten]
    simp only [NativeBranch.merge, Finset.mem_filter, this]
    cases b.gotten.get? port <;> cases old.gotten.get? port <;> simp
  · rw [merge_gotten] at hg
    cases hb : b.gotten.get? g
    case none    => exact hgot g v (by simpa [hb] using hg)
    case some v' => exact hgot' g v (by simpa [hb] using hg)

theorem lawful_merge (hi : Initial init) (hc : Coherent ds) :
    HashMap.LawfulMerge NativeBranch.merge (Sound init ds) Less := by
  refine ⟨fun _ _ _ h => h, fun h h' g v hg => h' g v (h g v hg), fun ho hb => ho.merge hi hb, ?_, ?_⟩
  · intro p old b ho hb g v hg
    obtain ⟨p₀, b₀, hp₀, hgen, _, _, hgot⟩ := ho
    obtain ⟨p₀', b₀', hp₀', hgen', _, _, hgot'⟩ := hb
    obtain ⟨hp, _⟩ := hi.unique hp₀ hp₀' hgen.base hgen'.base
    subst hp
    rw [merge_gotten]
    cases hb : b.gotten.get? g
    case none    => simpa using hg
    case some v' => simp [(hgot' g v' hb).unique hc (hgot g v hg)]
  · intro p old b ho hb g v hg
    simp [merge_gotten, hg]

-- Whether a branch has ended depends on the ports for which it has gotten payloads.
theorem Sound.is_ended {ds' : List Delivery} (hi : Initial init) (h : Sound init ds p b)
    (h' : Sound init ds' p b')
    (hl : ∀ g v, b.gotten.get? g = some v → ∃ v', b'.gotten.get? g = some v') (he : b.is_ended) :
    b'.is_ended := by
  obtain ⟨p₀, b₀, hp₀, hgen, _, hto, _⟩ := h
  obtain ⟨p₀', b₀', hp₀', hgen', _, hto', _⟩ := h'
  obtain ⟨_, hb⟩ := hi.unique hp₀ hp₀' hgen.base hgen'.base
  subst hb
  refine Finset.eq_empty_of_forall_notMem fun port hm => ?_
  obtain ⟨hm, hn⟩ := (hto' port).mp hm
  cases hg : b.gotten.get? port
  case none   => exact absurd ((hto port).mpr ⟨hm, hg⟩) (he ▸ Finset.notMem_empty port)
  case some v =>
    obtain ⟨_, hv⟩ := hl port v hg
    cases hn.symm.trans hv

theorem Gets.mono {ds' : List Delivery} (h : Gets p₀ ds p g v) (hs : ∀ d ∈ ds, d ∈ ds')
    (hp : p ⊆ p') : Gets p₀ ds' p' g v := by
  obtain ⟨msg, hm, hf, hs', hv⟩ := h
  exact ⟨msg, hs _ hm, hf, Predicate.Subset.trans hs' hp, hv⟩

theorem Sound.tail (h : Sound init ds p b) : Sound init (d :: ds) p b := by
  obtain ⟨p₀, b₀, hp₀, hgen, hindex, hto, hgot⟩ := h
  have ht : ∀ d' ∈ ds, d' ∈ d :: ds := fun _ hd => .tail _ hd
  exact ⟨p₀, b₀, hp₀, hgen.mono ht, hindex, hto,
    fun g v hg => (hgot g v hg).mono ht (Predicate.Subset.refl _)⟩

-- Every initial branch decides whether the getter fires.
def Decides (init : HashMap Predicate NativeBranch) (g : PortId) : Prop :=
  ∀ p₀ b₀, init.get? p₀ = some b₀ → ∃ val, p₀.query g = some val

theorem Decides.query_eq (h : Decides init g) (hp₀ : init.get? p₀ = some b₀) (hs : p₀ ⊆ p) :
    p.query g = p₀.query g := by
  obtain ⟨val, hv⟩ := h p₀ b₀ hp₀
  exact (hs g val hv).trans hv.symm

theorem Sound.fed (hd : Decides init d.1) (h : Sound init ds p b) (ht : Takes d p p') :
    Sound init (d :: ds) p' (fed d b) := by
  obtain ⟨p₀, b₀, hp₀, hgen, hindex, hto, hgot⟩ := h
  have hf := hd.query_eq hp₀ hgen.base ▸ ht.firing
  have htail : ∀ d' ∈ ds, d' ∈ d :: ds := fun _ hd => .tail _ hd
  refine ⟨p₀, b₀, hp₀, ?_, hindex, fun port => ?_, fun g v hg => ?_⟩
  · exact ht.union ▸ (hgen.mono htail).union (.head _) hf ht.compatible
  · simp only [BranchingNative.fed, Finset.mem_erase, hto, HashMap.get?_insert]
    split
    case isTrue he  => simp [he]
    case isFalse he => simp [he]
  · simp only [BranchingNative.fed, HashMap.get?_insert] at hg
    split at hg
    case isTrue he =>
      exact ⟨d.2, he ▸ .head _, he ▸ hf, ht.covers, Option.some.inj hg⟩
    case isFalse => exact (hgot g v hg).mono htail ht.extends

theorem Sound.contributions (hd : Decides init d.1) (h : Sound init ds p b) {e : Predicate × NativeBranch}
    (he : e ∈ BranchingNative.contributions d (p, b)) : Sound init (d :: ds) e.1 e.2 := by
  obtain ⟨k, c⟩ := e
  cases mem_contributions.mp he
  case inl he =>
    obtain ⟨hk, hc, _⟩ := he
    exact hk ▸ hc ▸ h.tail
  case inr he =>
    obtain ⟨ht, hc⟩ := he
    exact hc ▸ h.fed hd ht

theorem Sound.accepts (hc : Coherent (d :: ds)) (h : Sound init ds p b) (ht : Takes d p p') :
    Accepts d b := by
  obtain ⟨_, _, _, _, _, _, hgot⟩ := h
  intro was hw
  obtain ⟨msg, hm, _, hs, hv⟩ := hgot _ _ hw
  exact hv ▸ hc (.tail _ hm) (.head _) rfl (ht.compatible.mono hs)

namespace Delivers

variable {order : List Predicate}

theorem contributions_sound (hd : Decides init d.1) (h : Delivers init ds branches)
    (hb : branches.get? p = some b) {e} (he : e ∈ contributions d (p, b)) :
    Sound init (d :: ds) e.1 e.2 :=
  (h.sound hb).contributions hd he

-- For every predicate that is due after the message is fed, some branch contributes all payloads.
theorem informed (hc : Coherent (d :: ds)) (hd : Decides init d.1) (h : Delivers init ds branches)
    (hp₀ : init.get? p₀ = some b₀) (hgen : Generated p₀ (d :: ds) p) :
    ∃ q b c, branches.get? q = some b ∧ (p, c) ∈ contributions d (q, b) ∧
    (Takes d q p ∧ c = fed d b ∨ q = p ∧ c = b) ∧
    ∀ g v, Gets p₀ (d :: ds) p g v → c.gotten.get? g = some v := by
  by_cases hf : p₀.query d.1 = some .FIRING ∧ d.2.predicate ⊆ p
  case pos =>
    obtain ⟨hf, hs⟩ := hf
    obtain ⟨q, hgen', hqp, hcov⟩ := @Generated.greatest p₀ p ds hgen.base
    obtain ⟨b, hb, hall⟩ := h.complete hp₀ hgen'
    have hu : p = Predicate.union q d.2.predicate := by
      refine Predicate.Subset.antisymm (fun var val hq => ?_) (Predicate.union_subset hqp hs)
      have hc := Predicate.Compatible.of_subset hqp hs
      refine (Predicate.query_union_eq_some hc).mpr ?_
      cases hgen.covered hq
      case inl hq => exact .inl (hgen'.base var val hq)
      case inr hq =>
        obtain ⟨d', hm, hf', hs', hq⟩ := hq
        cases hm
        case head    => exact .inr hq
        case tail hm => exact .inl (hcov d' hm hf' hs' var val hq)
    have ht : Takes d q p := ⟨hgen'.base _ _ hf, .of_subset hqp hs, hu⟩
    refine ⟨q, b, fed d b, hb, mem_contributions.mpr (.inr ⟨ht, rfl⟩), .inl ⟨ht, rfl⟩, ?_⟩
    rintro g v ⟨msg, hm, hf', hs', hv⟩
    simp only [fed, HashMap.get?_insert]
    cases List.mem_cons.mp hm
    case inl he => simp [← he, hv]
    case inr hm =>
      split
      case isTrue hg =>
        rw [← hv, hc (.head _) (.tail _ hm) hg.symm (.of_subset hs hs')]
      case isFalse => exact hall g v ⟨msg, hm, hf', hcov _ hm hf' hs', hv⟩
  case neg =>
    have hgen' : Generated p₀ ds p := by
      refine ⟨hgen.base, fun hq => (hgen.covered hq).imp_right ?_⟩
      rintro ⟨d', hm, hf', hs', hq⟩
      cases hm
      case head    => exact absurd ⟨hf', hs'⟩ hf
      case tail hm => exact ⟨d', hm, hf', hs', hq⟩
    obtain ⟨b, hb, hall⟩ := h.complete hp₀ hgen'
    have hn : ¬Takes d p p :=
      fun ht => hf ⟨hd.query_eq hp₀ hgen.base ▸ ht.firing, ht.covers⟩
    refine ⟨p, b, b, hb, mem_contributions.mpr (.inl ⟨rfl, rfl, hn⟩), .inr ⟨rfl, rfl⟩, ?_⟩
    rintro g v ⟨msg, hm, hf', hs', hv⟩
    cases hm
    case head    => exact absurd ⟨hf', hs'⟩ hf
    case tail hm => exact hall g v ⟨msg, hm, hf', hs', hv⟩

-- The branches after the message is fed.
abbrev next (d : Delivery) (branches : HashMap Predicate NativeBranch) (order : List Predicate) :
    HashMap Predicate NativeBranch :=
  HashMap.insertAll NativeBranch.merge ∅ ((entries branches order).flatMap (contributions d))

theorem mem_contributed (ho : Iterates order (Finmap.keys branches)) {e} :
    e ∈ (entries branches order).flatMap (contributions d) ↔
    ∃ p b, branches.get? p = some b ∧ e ∈ contributions d (p, b) := by
  simp only [List.mem_flatMap, Prod.exists, mem_entries, ho.mem_iff, HashMap.mem_keys_iff]
  constructor
  case mp =>
    rintro ⟨p, b, ⟨_, hb⟩, he⟩
    exact ⟨p, b, hb, he⟩
  case mpr =>
    rintro ⟨p, b, hb, he⟩
    exact ⟨p, b, ⟨⟨b, hb⟩, hb⟩, he⟩

theorem all_sound (hd : Decides init d.1) (h : Delivers init ds branches)
    (ho : Iterates order (Finmap.keys branches)) :
    ∀ e ∈ (entries branches order).flatMap (contributions d), Sound init (d :: ds) e.1 e.2 := by
  intro e he
  obtain ⟨p, b, hb, he⟩ := (mem_contributed ho).mp he
  exact h.contributions_sound hd hb he

theorem mem_next (hi : Initial init) (hc : Coherent (d :: ds)) (hd : Decides init d.1)
    (h : Delivers init ds branches) (ho : Iterates order (Finmap.keys branches))
    (hb : branches.get? p = some b) (he : (p', b') ∈ contributions d (p, b)) :
    ∃ c, (next d branches order).get? p' = some c ∧ Less b' c :=
  HashMap.mem_insertAll (lawful_merge hi hc) (by simp) (h.all_sound hd ho)
    ((mem_contributed ho).mpr ⟨p, b, hb, he⟩)

theorem step (hi : Initial init) (hc : Coherent (d :: ds)) (hd : Decides init d.1)
    (h : Delivers init ds branches) (ho : Iterates order (Finmap.keys branches)) :
    Delivers init (d :: ds) (next d branches order) where
  sound    := HashMap.good_insertAll (lawful_merge hi hc) (by simp) (h.all_sound hd ho) _ _
  complete := by
    intro p₀ b₀ p hp₀ hgen
    obtain ⟨q, b, c, hb, he, _, hall⟩ := h.informed hc hd hp₀ hgen
    obtain ⟨w, hw, hle⟩ := h.mem_next hi hc hd ho hb he
    exact ⟨w, hw, fun g v hg => hle g v (hall g v hg)⟩

-- Exactly the predicates of ended branches have been submitted.
def Submitted (branches : HashMap Predicate NativeBranch) (ps : Finset Predicate) : Prop :=
  ∀ p, p ∈ ps ↔ ∃ b, branches.get? p = some b ∧ b.is_ended

theorem submitted_step {ps ps' : Finset Predicate} (hi : Initial init) (hc : Coherent (d :: ds))
    (hd : Decides init d.1) (h : Delivers init ds branches)
    (ho : Iterates order (Finmap.keys branches)) (hs : Submitted branches ps)
    (hps : ∀ q, q ∈ ps' ↔
      ∃ p b, branches.get? p = some b ∧ Takes d p q ∧ (fed d b).is_ended) :
    Submitted (next d branches order) (ps ∪ ps') := by
  have hn := h.step hi hc hd ho
  intro p
  rw [Finset.mem_union]
  constructor
  case mp =>
    intro hp
    cases hp
    case inl hp =>
      obtain ⟨b, hb, he⟩ := (hs p).mp hp
      obtain ⟨p₀, b₀, hp₀, hgen, _, _, hgot⟩ := h.sound hb
      have htail : ∀ d' ∈ ds, d' ∈ d :: ds := fun _ hd => .tail _ hd
      obtain ⟨w, hw, hall⟩ := hn.complete hp₀ (hgen.mono htail)
      refine ⟨w, hw, (h.sound hb).is_ended hi (hn.sound hw) (fun g v hg => ?_) he⟩
      exact ⟨v, hall g v ((hgot g v hg).mono htail (Predicate.Subset.refl _))⟩
    case inr hp =>
      obtain ⟨q, b, hb, ht, he⟩ := (hps p).mp hp
      obtain ⟨w, hw, hle⟩ := h.mem_next hi hc hd ho hb (mem_contributions.mpr (.inr ⟨ht, rfl⟩))
      refine ⟨w, hw, ((h.sound hb).fed hd ht).is_ended hi (hn.sound hw) (fun g v hg => ?_) he⟩
      exact ⟨v, hle g v hg⟩
  case mpr =>
    rintro ⟨w, hw, he⟩
    have hsound := hn.sound hw
    obtain ⟨p₀, b₀, hp₀, hgen, _, _, hgot⟩ := hn.sound hw
    obtain ⟨q, b, c, hb, hm, hcase, hall⟩ := h.informed hc hd hp₀ hgen
    have he := hsound.is_ended hi (h.contributions_sound hd hb hm)
      (fun g v hg => ⟨v, hall g v (hgot g v hg)⟩) he
    cases hcase
    case inl ht =>
      obtain ⟨ht, hc⟩ := ht
      exact .inr <| (hps p).mpr ⟨q, b, hb, ht, hc ▸ he⟩
    case inr hq =>
      obtain ⟨hq, hc⟩ := hq
      exact .inl <| (hs p).mpr ⟨b, hq ▸ hb, hc ▸ he⟩

end Delivers
end

section

variable {port_info : PortInfoMap} {cid : ComponentId} {native_spec_var var : SpecVar}
variable {ports : List PortId} {firing : Finset PortId} {batch : NativeBatch} {order : BatchOrder}
variable {rctx rctx' : RoundCtx} {native native' : BranchingNative} {val : SpecVal}

theorem isSome_inserted : ((p.inserted native_spec_var val).query var).isSome ↔
    var = native_spec_var ∨ (p.query var).isSome := by
  rw [Predicate.query_inserted]
  split
  case isTrue h  => simp [h]
  case isFalse h => simp [h]

theorem assign_firing_query (h : assign_firing port_info ports p = .ok p') :
    (p'.query var).isSome ↔
    (∃ port ∈ ports, port_info.spec_var_for port = some var) ∨ (p.query var).isSome := by
  induction ports generalizing p with
  | nil =>
    cases h
    simp
  | cons port ports ih =>
    simp only [assign_firing, SyncResult.bind_eq_ok, SyncResult.unwrap_eq_ok] at h
    obtain ⟨var', hv, h⟩ := h
    rw [ih h, isSome_inserted]
    simp only [List.exists_mem_cons_iff, hv, Option.some.injEq, eq_comm]
    grind

theorem assign_silent_query (h : assign_silent port_info firing ports p = .ok (some p')) :
    (p'.query var).isSome ↔ (∃ port ∈ ports, port ∉ firing ∧
      port_info.spec_var_for port = some var) ∨ (p.query var).isSome := by
  induction ports generalizing p with
  | nil =>
    cases h
    simp
  | cons port ports ih =>
    simp only [assign_silent] at h
    split at h
    case isTrue hf =>
      rw [ih h]
      simp [hf]
    case isFalse hf =>
      simp only [SyncResult.bind_eq_ok, SyncResult.unwrap_eq_ok] at h
      obtain ⟨var', hv, h⟩ := h
      split at h
      case isTrue => cases h
      case isFalse =>
        rw [ih h, isSome_inserted]
        simp only [List.exists_mem_cons_iff, hv, Option.some.injEq, hf, not_false_eq_true, true_and,
          eq_comm]
        grind

-- The predicates of all batches assign the same variables.
theorem batch_predicate_query (hb : firing_ports batch ⊆ port_info.ports_owned_by cid)
    (h : batch_predicate port_info cid native_spec_var val batch order = .ok (some p)) :
    (p.query var).isSome ↔ var = native_spec_var ∨
    ∃ port ∈ port_info.ports_owned_by cid, port_info.spec_var_for port = some var := by
  simp only [batch_predicate, SyncResult.bind_eq_ok, SyncResult.choose_eq_ok,
    SyncResult.pure_eq_ok, Option.map_eq_some_iff] at h
  obtain ⟨_, hf, _, ho, p₁, h₁, p₂, h₂, p₃, hp₂, hp⟩ := h
  subst hp hp₂
  rw [isSome_inserted, assign_silent_query h₂, assign_firing_query h₁]
  simp only [ho.mem_iff, hf.mem_iff, Predicate.query_empty, Option.isSome_none,
    Bool.false_eq_true, or_false]
  refine or_congr_right ⟨fun h => ?_, ?_⟩
  · cases h
    case inl h => exact h.imp fun port h => ⟨h.1, h.2.2⟩
    case inr h => exact h.imp fun port h => ⟨hb h.1, h.2⟩
  · rintro ⟨port, hm, hv⟩
    by_cases hp : port ∈ firing_ports batch
    case pos => exact .inr ⟨port, hp, hv⟩
    case neg => exact .inl ⟨port, hm, hp, hv⟩

theorem send_puts_rest {to_put : HashMap PortId Payload}
    (h : send_puts p to_put ports rctx = .ok rctx') :
    rctx' = { rctx with payload_inbox := rctx'.payload_inbox } := by
  induction ports generalizing rctx with
  | nil =>
    cases h
    rfl
  | cons putter putters ih =>
    simp only [send_puts] at h
    split at h
    case h_1 => cases h
    case h_2 payload _ =>
      simp only [SyncResult.bind_eq_ok, RoundCtx.putter_push, RoundCtx.getter_push,
        SyncResult.pure_eq_ok] at h
      obtain ⟨_, _, _, _, rctx₁, ⟨_, _, getter, _, hr⟩, h⟩ := h
      rw [ih h, ← hr]

-- What the loop over the batches maintains.
structure Started (port_info : PortInfoMap) (cid : ComponentId) (native_spec_var : SpecVar)
    (ips : IdAndPortState) (rctx : RoundCtx) (native : BranchingNative) : Prop where
  ips       : rctx.ips = ips
  knows     : rctx.solution_storage.Knows (.localComponent cid)
  assigns   : ∀ {p b var}, native.branches.get? p = some b → ((p.query var).isSome ↔
              var = native_spec_var ∨ ∃ port ∈ port_info.ports_owned_by cid,
                port_info.spec_var_for port = some var)
  gotten    : ∀ {p b}, native.branches.get? p = some b → b.gotten = ∅
  submitted : Delivers.Submitted native.branches
              (rctx.solution_storage.solutions (.localComponent cid))

theorem Started.insert {ips : IdAndPortState} {branch : NativeBranch} {ps : Finset Predicate}
    (hs : Started port_info cid native_spec_var ips rctx native)
    (hn : native.branches.get? p = none) (hq : ∀ {var}, (p.query var).isSome ↔
      var = native_spec_var ∨ ∃ port ∈ port_info.ports_owned_by cid,
        port_info.spec_var_for port = some var)
    (hg : branch.gotten = ∅) (hr : rctx.Submitted (.localComponent cid) ps rctx')
    (hps : ∀ q, q ∈ ps ↔ q = p ∧ branch.is_ended) :
    Started port_info cid native_spec_var ips rctx' ⟨native.branches.insert p branch⟩ where
  ips       := hr.ips.trans hs.ips
  knows     := hr.knows hs.knows
  assigns   := by
    intro p' b var h
    rw [HashMap.get?_insert] at h
    split at h
    case isTrue he => exact he ▸ hq
    case isFalse   => exact hs.assigns h
  gotten    := by
    intro p' b h
    rw [HashMap.get?_insert] at h
    split at h
    case isTrue  => cases h; exact hg
    case isFalse => exact hs.gotten h
  submitted := by
    intro p'
    rw [hr.solutions, Finset.mem_union, hs.submitted p', hps, HashMap.get?_insert]
    split
    case isTrue he  => simp [he, hn]
    case isFalse he => simp [he]

theorem Started.start_batch {ips : IdAndPortState} {index : Nat}
    (hs : Started port_info cid native_spec_var ips rctx native)
    (hb : firing_ports batch ⊆ port_info.ports_owned_by cid)
    (h : start_batch port_info cid native_spec_var index batch order rctx native =
      .ok (rctx', native')) : Started port_info cid native_spec_var ips rctx' native' := by
  simp only [BranchingNative.start_batch, SyncResult.bind_eq_ok] at h
  obtain ⟨maybe, hp, h⟩ := h
  cases maybe
  case none =>
    cases h
    exact hs
  case some p =>
    simp only [SyncResult.bind_eq_ok, SyncResult.choose_eq_ok, SyncResult.assert_eq_ok,
      SyncResult.pure_eq_ok, Prod.mk.injEq] at h
    obtain ⟨_, _, rctx₁, hsend, rctx₂, hsubmit, _, hn, hr, hnat⟩ := h
    subst hr hnat
    have hrest := send_puts_rest hsend
    have hs₁ : Started port_info cid native_spec_var ips rctx₁ native :=
      ⟨by rw [hrest]; exact hs.ips, by rw [hrest]; exact hs.knows, hs.assigns, hs.gotten,
        by rw [hrest]; exact hs.submitted⟩
    obtain ⟨rctx₃, ps, hr, hsub, hps⟩ := @submit_if_ended_ok p ⟨index, ∅, batch.to_get⟩ cid _ hs₁.knows
    cases hr.symm.trans hsubmit
    exact hs₁.insert hn (batch_predicate_query hb hp) rfl hsub hps

theorem Started.start_batches {ips : IdAndPortState} {index : Nat}
    {batches : List (NativeBatch × BatchOrder)}
    (hs : Started port_info cid native_spec_var ips rctx native)
    (hb : ∀ b ∈ batches, firing_ports b.1 ⊆ port_info.ports_owned_by cid)
    (h : start_batches port_info cid native_spec_var index batches (rctx, native) =
      .ok (rctx', native')) : Started port_info cid native_spec_var ips rctx' native' := by
  induction batches generalizing index rctx native with
  | nil =>
    cases h
    exact hs
  | cons b batches ih =>
    have (batch, order) := b
    obtain ⟨hb, hbs⟩ := List.forall_mem_cons.mp hb
    simp only [BranchingNative.start_batches, SyncResult.bind_eq_ok] at h
    obtain ⟨⟨rctx₁, native₁⟩, h₁, h⟩ := h
    exact ih (hs.start_batch hb h₁) hbs h

-- Two predicates that assign the same variables and agree on them are equal.
theorem Initial.of_assigns {init : HashMap Predicate NativeBranch} {vars : SpecVar → Prop}
    (hg : ∀ {p b}, init.get? p = some b → b.gotten = ∅)
    (ha : ∀ {p b var}, init.get? p = some b → ((p.query var).isSome ↔ vars var)) : Initial init where
  gotten   := hg
  disjoint := by
    intro p p' b b' hb hb' hc
    refine Predicate.ext_query fun var => ?_
    have hd : (p.query var).isSome ↔ (p'.query var).isSome := (ha hb).trans (ha hb').symm
    cases h : p.query var <;> cases h' : p'.query var <;> simp only [h, h'] at hd
    case none.none => rfl
    case none.some => simp at hd
    case some.none => simp at hd
    case some.some => rw [hc var _ _ h h']

theorem Started.initial {ips : IdAndPortState}
    (hs : Started port_info cid native_spec_var ips rctx native) : Initial native.branches :=
  .of_assigns hs.gotten hs.assigns

theorem Initial.delivers {init : HashMap Predicate NativeBranch} (hi : Initial init) :
    Delivers init [] init where
  sound    := by
    intro p b hb
    refine ⟨p, b, hb, .self, rfl, ?_, ?_⟩ <;> simp [hi.gotten hb]
  complete := by
    intro p₀ b₀ p hp₀ hgen
    have he : p₀ = p := Predicate.Subset.antisymm hgen.base fun var val hq =>
      (hgen.covered hq).elim id fun h => by cases h.choose_spec.1
    refine ⟨b₀, he ▸ hp₀, ?_⟩
    rintro g v ⟨_, hm, _⟩
    cases hm

end

-- The messages for the native, each with the order in which the loop visits the branches.
def deliver (native_component_id : ComponentId) : List (Delivery × List Predicate) →
    RoundCtx × BranchingNative → SyncResult (RoundCtx × BranchingNative)
  | [], acc => return acc
  | ((getter, msg), order) :: deliveries, (rctx, native) => do
    let acc ← feed_msg native_component_id getter msg rctx native order
    deliver native_component_id deliveries acc

-- The port is an input of the native, before and during the round.
structure IsInput (cu_ports : PortInfoMap) (native_component_id : ComponentId) (rctx : RoundCtx)
    (g : PortId) : Prop where
  owned    : g ∈ cu_ports.ports_owned_by native_component_id
  before   : (cu_ports.map.get? g).map (·.polarity) = some .getter
  polarity : (rctx.ips.port_info.map.get? g).map (·.polarity) = some .getter

section

variable {cu_ports : PortInfoMap} {cid : ComponentId} {native_spec_var : SpecVar}
variable {batches : List (NativeBatch × BatchOrder)} {rctx rctx₀ rctx₁ : RoundCtx}
variable {native₀ native native₁ : BranchingNative} {init : HashMap Predicate NativeBranch}
variable {deliveries : List (Delivery × List Predicate)}

-- What holds between two deliveries.
structure Between (init : HashMap Predicate NativeBranch) (cid : ComponentId) (ds : List Delivery)
    (rctx : RoundCtx) (native : BranchingNative) : Prop where
  delivers  : Delivers init ds native.branches
  submitted : Delivers.Submitted native.branches
              (rctx.solution_storage.solutions (.localComponent cid))
  knows     : rctx.solution_storage.Knows (.localComponent cid)

theorem Started.decides {g : PortId} (hs : Started cu_ports cid native_spec_var rctx.ips rctx native)
    (hg : IsInput cu_ports cid rctx g) : Decides native.branches g := by
  intro p b hb
  refine Option.isSome_iff_exists.mp <| (hs.assigns hb).mpr <| .inr ⟨g, hg.owned, ?_⟩
  obtain ⟨info, hi, hp⟩ := Option.map_eq_some_iff.mp hg.before
  simp [PortInfoMap.spec_var_for, hi, hp]

theorem Coherent.sub {ds ds' : List Delivery} (h : Coherent ds) (hs : ∀ d ∈ ds', d ∈ ds) :
    Coherent ds' :=
  fun hd hd' => h (hs _ hd) (hs _ hd')

theorem deliver_ok {ds : List Delivery} (hi : Initial init) (hb : Between init cid ds rctx native)
    (hd : ∀ d ∈ deliveries.map (·.1), Decides init d.1 ∧
      (rctx.ips.port_info.map.get? d.1).map (·.polarity) = some .getter)
    (hc : Coherent ((deliveries.map (·.1)).reverse ++ ds)) :
    deliver cid deliveries (rctx, native) = .error .invalid ∨
    ∃ rctx' native', deliver cid deliveries (rctx, native) = .ok (rctx', native') ∧
    Between init cid ((deliveries.map (·.1)).reverse ++ ds) rctx' native' := by
  induction deliveries generalizing ds rctx native with
  | nil => exact .inr ⟨rctx, native, rfl, hb⟩
  | cons x deliveries ih =>
    have (d, order) := x
    obtain ⟨⟨hdec, hpol⟩, hds⟩ := List.forall_mem_cons.mp hd
    obtain ⟨info, hinfo, hp⟩ := Option.map_eq_some_iff.mp hpol
    simp only [List.map_cons, List.reverse_cons, List.append_assoc, List.singleton_append] at hc ⊢
    have hc' : Coherent (d :: ds) := hc.sub fun _ hm => List.mem_append_right _ hm
    by_cases ho : Iterates order (Finmap.keys native.branches)
    case neg => exact .inl (by simp [deliver, feed_msg, SyncResult.choose, ho, bind, Except.bind])
    case pos =>
      obtain ⟨rctx', ps, h, hs, hps⟩ := feed_msg_ok hb.knows hinfo hp ho
        fun p b hp ht => ht.elim fun _ ht => (hb.delivers.sound hp).accepts hc' ht
      have hnext : Between init cid (d :: ds) rctx' ⟨_⟩ := {
        delivers  := hb.delivers.step hi hc' hdec ho
        submitted := hs.solutions ▸
          hb.delivers.submitted_step hi hc' hdec ho hb.submitted hps
        knows     := hs.knows hb.knows
      }
      have := ih hnext (hs.ips ▸ hds) hc
      simp only [deliver, h, SyncResult.ok_bind]
      exact this

theorem collapse_with_cases {order : List Predicate} {q : Predicate} {r : RoundEndedNative}
    (h : native.collapse_with order q = .ok r) : ∃ p b, native.branches.get? p = some b ∧ b.is_ended ∧
    p ⊆ q ∧ r = ⟨b.index, b.gotten⟩ := by
  simp only [collapse_with, SyncResult.bind_eq_ok, SyncResult.unwrap_eq_ok, SyncResult.pure_eq_ok] at h
  obtain ⟨_, _, branch, hf, hr⟩ := h
  obtain ⟨p, _, hp⟩ := List.exists_of_findSome?_eq_some hf
  obtain ⟨b, hb, h⟩ := Option.bind_eq_some_iff.mp hp
  split at h
  case isFalse => cases h
  case isTrue he =>
    cases h
    exact ⟨p, branch, hb, he.left, Predicate.assigns_subset_iff.mp he.right, hr.symm⟩

theorem collapse_with_ok_iff {order : List Predicate} {q : Predicate}
    (ho : Iterates order (Finmap.keys native.branches)) :
    (∃ r, native.collapse_with order q = .ok r) ↔
    ∃ p b, native.branches.get? p = some b ∧ b.is_ended ∧ p ⊆ q := by
  constructor
  case mp =>
    rintro ⟨_, h⟩
    obtain ⟨p, b, hb, he, hs, _⟩ := collapse_with_cases h
    exact ⟨p, b, hb, he, hs⟩
  case mpr =>
    simp only [collapse_with, SyncResult.choose_pos ho, SyncResult.ok_bind, SyncResult.bind_eq_ok,
      SyncResult.unwrap_eq_ok, SyncResult.pure_eq_ok]
    rintro ⟨p, b, hb, he, hs⟩
    have hm := ho.mem_iff.mpr (HashMap.mem_keys_iff.mpr ⟨b, hb⟩)
    cases hf : order.findSome? fun p => (native.branches.get? p).bind fun b =>
      if b.is_ended ∧ p.assigns_subset q then some b else none
    case some b' => exact ⟨_, b', rfl, rfl⟩
    case none =>
      have := List.findSome?_eq_none_iff.mp hf p hm
      simp [hb, he, Predicate.assigns_subset_iff.mpr hs] at this

-- The messages that were delivered determine the branches.
theorem Delivers.unique {ds ds' : List Delivery} {branches branches' : HashMap Predicate NativeBranch}
    (hi : Initial init) (h : Delivers init ds branches) (h' : Delivers init ds' branches')
    (hd : ∀ d, d ∈ ds ↔ d ∈ ds') : branches = branches' := by
  have hle {ds ds' : List Delivery} {branches branches' : HashMap Predicate NativeBranch}
      (h : Delivers init ds branches) (h' : Delivers init ds' branches') (hd : ∀ d ∈ ds, d ∈ ds')
      {p b} (hb : branches.get? p = some b) : ∃ b', branches'.get? p = some b' ∧
      Less b b' ∧ b.index = b'.index ∧ ∀ port, port ∈ b'.to_get → port ∈ b.to_get := by
    obtain ⟨p₀, b₀, hp₀, hgen, hindex, hto, hgot⟩ := h.sound hb
    obtain ⟨b', hb', hall⟩ := h'.complete hp₀ (hgen.mono hd)
    obtain ⟨p₀', b₀', hp₀', hgen', hindex', hto', hgot'⟩ := h'.sound hb'
    obtain ⟨_, he⟩ := hi.unique hp₀ hp₀' hgen.base hgen'.base
    subst he
    have hless : Less b b' := fun g v hg => hall g v ((hgot g v hg).mono hd (Predicate.Subset.refl _))
    refine ⟨b', hb', hless, hindex.trans hindex'.symm, fun port hm => (hto port).mpr ?_⟩
    obtain ⟨hm, hn⟩ := (hto' port).mp hm
    refine ⟨hm, Option.eq_none_iff_forall_ne_some.mpr fun v hv => ?_⟩
    cases hn.symm.trans (hless port v hv)
  have hle₁ := @hle ds ds' branches branches' h h' fun d => (hd d).mp
  have hle₂ := @hle ds' ds branches' branches h' h fun d => (hd d).mpr
  have heq {b b' : NativeBranch} (hless : Less b b') (hless' : Less b' b) (hindex : b.index = b'.index)
      (hto : ∀ port, port ∈ b'.to_get → port ∈ b.to_get)
      (hto' : ∀ port, port ∈ b.to_get → port ∈ b'.to_get) : b = b' := by
    have hg : b.gotten = b'.gotten :=
      HashMap.ext_get? fun g => Option.ext fun v => ⟨hless g v, hless' g v⟩
    have ht : b.to_get = b'.to_get := Finset.ext fun port => ⟨hto' port, hto port⟩
    cases b
    cases b'
    simp_all
  refine HashMap.ext_get? fun p => Option.ext fun b => ⟨fun hb => ?_, fun hb => ?_⟩
  · obtain ⟨b', hb', hless, hindex, hto⟩ := hle₁ hb
    obtain ⟨b'', hb'', hless', _, hto'⟩ := hle₂ hb'
    cases hb.symm.trans hb''
    exact heq hless hless' hindex hto hto' ▸ hb'
  · obtain ⟨b', hb', hless, hindex, hto⟩ := hle₂ hb
    obtain ⟨b'', hb'', hless', _, hto'⟩ := hle₁ hb'
    cases hb.symm.trans hb''
    exact heq hless hless' hindex hto hto' ▸ hb'

theorem native_branches (hknows : rctx.solution_storage.Knows (.localComponent cid))
    (hnew : rctx.solution_storage.solutions (.localComponent cid) = ∅)
    (hbatches : ∀ b ∈ batches, firing_ports b.1 ⊆ cu_ports.ports_owned_by cid)
    (hstart : start_batches cu_ports cid native_spec_var 0 batches (rctx, ⟨∅⟩) =
      .ok (rctx₀, native₀))
    (hinputs : ∀ d ∈ deliveries.map (·.1), IsInput cu_ports cid rctx d.1)
    (hcoherent : Coherent (deliveries.map (·.1)))
    (hvalid : deliver cid deliveries (rctx₀, native₀) ≠ .error .invalid) :
    ∃ rctx₁ native₁, deliver cid deliveries (rctx₀, native₀) = .ok (rctx₁, native₁) ∧
    (∀ p, (∃ b, native₁.branches.get? p = some b) ↔
      ∃ p₀ b₀, native₀.branches.get? p₀ = some b₀ ∧
      ∃ s : Set Delivery, (∀ d ∈ s, d ∈ deliveries.map (·.1)) ∧ Union p₀ s p) ∧
    (∀ p₀ b₀ p b, native₀.branches.get? p₀ = some b₀ → native₁.branches.get? p = some b → p₀ ⊆ p →
      ∀ g v, b.gotten.get? g = some v ↔ Gets p₀ (deliveries.map (·.1)) p g v) ∧
    (∀ p, p ∈ rctx₁.solution_storage.solutions (.localComponent cid) ↔
      ∃ b, native₁.branches.get? p = some b ∧ b.to_get = ∅) ∧
    ∀ deliveries₂ rctx₂ native₂, (deliveries₂.map (·.1)).Perm (deliveries.map (·.1)) →
      deliver cid deliveries₂ (rctx₀, native₀) = .ok (rctx₂, native₂) →
      native₂ = native₁ ∧ rctx₂.solution_storage.solutions (.localComponent cid) =
        rctx₁.solution_storage.solutions (.localComponent cid) ∧
      ∀ q order₁ order₂, Iterates order₁ (Finmap.keys native₁.branches) →
        Iterates order₂ (Finmap.keys native₂.branches) →
        ((∃ r, native₁.collapse_with order₁ q = .ok r) ↔
          ∃ r, native₂.collapse_with order₂ q = .ok r) := by
  have hs : Started cu_ports cid native_spec_var rctx.ips rctx₀ native₀ :=
    Started.start_batches ⟨rfl, hknows, by simp, by simp, fun p => by simp [hnew]⟩ hbatches hstart
  have hi := hs.initial
  have hb : Between native₀.branches cid [] rctx₀ native₀ := ⟨hi.delivers, hs.submitted, hs.knows⟩
  have hds {deliveries₂ : List (Delivery × List Predicate)}
      (hp : (deliveries₂.map (·.1)).Perm (deliveries.map (·.1))) :
      ∀ d ∈ deliveries₂.map (·.1), Decides native₀.branches d.1 ∧
        (rctx₀.ips.port_info.map.get? d.1).map (·.polarity) = some .getter := by
    intro d hd
    have hd := hinputs d (hp.mem_iff.mp hd)
    rw [hs.ips]
    refine ⟨Started.decides (hs.ips ▸ hs) ⟨hd.owned, hd.before, hs.ips ▸ hd.polarity⟩, hd.polarity⟩
  have hdeliver {deliveries₂ : List (Delivery × List Predicate)}
      (hp : (deliveries₂.map (·.1)).Perm (deliveries.map (·.1))) :=
    deliver_ok hi hb (hds hp) (hcoherent.sub fun d hd => hp.mem_iff.mp (by simpa using hd))
  obtain ⟨rctx₁, native₁, h₁, hb₁⟩ := (hdeliver (.refl _)).resolve_left hvalid
  have hmem d : d ∈ (deliveries.map (·.1)).reverse ++ [] ↔ d ∈ deliveries.map (·.1) := by simp
  refine ⟨rctx₁, native₁, h₁, fun p => ?_, ?_, hb₁.submitted, ?_⟩
  · constructor
    case mp =>
      rintro ⟨b, hp⟩
      obtain ⟨p₀, b₀, hp₀, hgen, _⟩ := hb₁.delivers.sound hp
      exact ⟨p₀, b₀, hp₀, generated_iff.mp (hgen.mono fun d => (hmem d).mp)⟩
    case mpr =>
      rintro ⟨p₀, b₀, hp₀, hgen⟩
      obtain ⟨b, hb, _⟩ := hb₁.delivers.complete hp₀
        ((generated_iff.mpr hgen).mono fun d => (hmem d).mpr)
      exact ⟨b, hb⟩
  · intro p₀ b₀ p b hp₀ hp hsub g v
    obtain ⟨p₀', b₀', hp₀', hgen, _, _, hgot⟩ := hb₁.delivers.sound hp
    obtain ⟨he, _⟩ := hi.unique hp₀ hp₀' hsub hgen.base
    subst he
    obtain ⟨b', hb', hall⟩ := hb₁.delivers.complete hp₀ hgen
    cases hp.symm.trans hb'
    constructor
    case mp  => exact fun h => (hgot g v h).mono (fun d => (hmem d).mp) (Predicate.Subset.refl _)
    case mpr =>
      exact fun h => hall g v (h.mono (fun d => (hmem d).mpr) (Predicate.Subset.refl _))
  · intro deliveries₂ rctx₂ native₂ hp h₂
    obtain ⟨rctx₂', native₂', h₂', hb₂⟩ := (hdeliver hp).resolve_left (by simp [h₂])
    cases h₂.symm.trans h₂'
    have he : native₂.branches = native₁.branches :=
      hb₂.delivers.unique hi hb₁.delivers fun d => by simpa using hp.mem_iff
    have he : native₂ = native₁ := by
      cases native₁
      cases native₂
      simp_all
    subst he
    refine ⟨rfl, Finset.ext fun p => (hb₂.submitted p).trans (hb₁.submitted p).symm, ?_⟩
    intro q order₁ order₂ ho₁ ho₂
    rw [collapse_with_ok_iff ho₁, collapse_with_ok_iff ho₂]

end

-- A native that owns a single port, which is an input, and a round in which it takes part.
def oneInput : PortInfoMap where
  map   := HashMap.insert ∅ ⟨0, 1⟩ ⟨⟨0, 0⟩, some ⟨0, 0⟩, .getter, .localComponent⟩
  owned := HashMap.insert ∅ ⟨0, 0⟩ {⟨0, 1⟩}

def oneInputRound : RoundCtx where
  solution_storage := SolutionStorage.new [.localComponent ⟨0, 0⟩]
  spec_var_stream  := ⟨0, ⟨103⟩⟩
  payload_inbox    := []
  deadline         := false
  ips              := ⟨oneInput, ⟨0, ⟨2⟩, ⟨1⟩⟩⟩

theorem native_branches_one_input : ∃ rctx₀ native₀ rctx₁ native₁,
    start_batches oneInput ⟨0, 0⟩ ⟨0, 102⟩ 0 [(⟨∅, {⟨0, 1⟩}⟩, ⟨[⟨0, 1⟩], [⟨0, 1⟩], []⟩)]
      (oneInputRound, ⟨∅⟩) = .ok (rctx₀, native₀) ∧
    deliver ⟨0, 0⟩ [((⟨0, 1⟩, ⟨.singleton ⟨0, 1⟩ .FIRING, [7]⟩),
      [(Predicate.singleton ⟨0, 1⟩ .FIRING).inserted ⟨0, 102⟩ ⟨0⟩])]
      (rctx₀, native₀) = .ok (rctx₁, native₁) ∧
    ∀ p, p ∈ rctx₁.solution_storage.solutions (.localComponent ⟨0, 0⟩) ↔
      ∃ b, native₁.branches.get? p = some b ∧ b.to_get = ∅ := by
  have h := @native_branches oneInput ⟨0, 0⟩ ⟨0, 102⟩
    [(⟨∅, {⟨0, 1⟩}⟩, ⟨[⟨0, 1⟩], [⟨0, 1⟩], []⟩)] oneInputRound _ _
    [((⟨0, 1⟩, ⟨.singleton ⟨0, 1⟩ .FIRING, [7]⟩),
      [(Predicate.singleton ⟨0, 1⟩ .FIRING).inserted ⟨0, 102⟩ ⟨0⟩])]
    ⟨0, rfl, by decide⟩ rfl (by decide) rfl
    (fun d hd => by cases List.mem_singleton.mp hd; exact ⟨by decide, rfl, rfl⟩)
    (fun hd hd' _ _ => by cases List.mem_singleton.mp hd; cases List.mem_singleton.mp hd'; rfl)
    nofun
  obtain ⟨rctx₁, native₁, hd, _, _, hs, _⟩ := h
  exact ⟨_, _, rctx₁, native₁, rfl, hd, hs⟩

end BranchingNative
end Reowolf
