import Reowolf.Library.PrefixTerms

-- Two lists of terms are unified from the left to the right, by narrowing and filling the parts of
-- either one.
namespace TermSignature

variable {α : Type*} {S : TermSignature α} {n : Nat} {p q : α}
variable {t l m r c l₀ m₀ l' m' x y z x' y' : List α}

-- What refines two lists refines `z` at their front parts `x` and `y`, and the rests behind these.
def Joins (S : TermSignature α) (x y z : List α) : Prop :=
  ∀ l m c, S.Refines (x ++ l) c ∧ S.Refines (y ++ m) c ↔
    ∃ c₁ c₂, c = c₁ ++ c₂ ∧ S.Refines z c₁ ∧ S.Refines l c₂ ∧ S.Refines m c₂

namespace Joins

theorem symm (h : S.Joins x y z) : S.Joins y x z := by
  intro l m c
  rw [and_comm, h m l c]
  simp only [and_comm (a := S.Refines m _)]

theorem nil : S.Joins [] [] [] := by
  intro l m c
  constructor
  case mp => exact fun h => ⟨[], c, rfl, .nil, h⟩
  case mpr =>
    rintro ⟨c₁, c₂, hc, hnil, h⟩
    cases hnil
    exact hc ▸ h

theorem narrow (hp : p ≠ S.hole) (hq : q ≠ S.hole) (h : p = q ∨ S.narrows p q) :
    S.Joins [p] [q] [q] := by
  intro l m c
  simp only [List.singleton_append, Refines.cons_iff hp, Refines.cons_iff hq]
  constructor
  case mp =>
    rintro ⟨⟨_, _, hc, _, hl⟩, ⟨r, m', hc', hr, hm⟩⟩
    obtain ⟨_, hm'⟩ := List.cons.inj (hc.symm.trans hc')
    refine ⟨[r], m', hc', ?_, hm' ▸ hl, hm⟩
    exact ⟨r, [], rfl, hr, .nil⟩
  case mpr =>
    rintro ⟨c₁, c₂, hc, hz, hl, hm⟩
    obtain ⟨r, _, hc₁, hr, hnil⟩ := hz
    cases hnil
    have hc : c = r :: c₂ := by rw [hc, hc₁, List.singleton_append]
    have hpr : p = r ∨ S.narrows p r := by
      cases h
      case inl he => exact he ▸ hr
      case inr hn =>
        cases hr
        case inl he  => exact .inr (he ▸ hn)
        case inr hn' => exact .inr (S.narrows_trans hn hn')
    exact ⟨⟨r, c₂, hc, hpr, hl⟩, ⟨r, c₂, hc, hr, hm⟩⟩

-- A hole takes a whole term.
theorem fill (ht : S.Forest 1 t) (hu : S.Unmarked t) : S.Joins [S.hole] t t := by
  intro l m c
  simp only [List.singleton_append, Refines.hole_iff, Refines.append_iff]
  constructor
  case mp =>
    rintro ⟨⟨t', l', hc, ht', _, hl⟩, ⟨c₁, m', hc', hr, hm⟩⟩
    obtain ⟨_, hl'⟩ := ht'.unique (hr.forest ht) (hc.symm.trans hc')
    exact ⟨c₁, m', hc', hr, hl' ▸ hl, hm⟩
  case mpr =>
    rintro ⟨c₁, c₂, hc, hr, hl, hm⟩
    exact ⟨⟨c₁, c₂, hc, hr.forest ht, hr.unmarked hu, hl⟩, ⟨c₁, c₂, hc, hr, hm⟩⟩

theorem same : S.Joins [p] [p] [p] := by
  by_cases h : p = S.hole
  case pos => exact h ▸ fill (.singleton S.arity_hole) (by simp [Unmarked, S.hole_unmarked])
  case neg => exact narrow h h (.inl rfl)

theorem meet (h : S.Joins x y z) (hm : S.IsMeet l m r) : S.IsMeet (x ++ l) (y ++ m) (z ++ r) := by
  intro c
  rw [h l m c, Refines.append_iff]
  simp only [hm _]

theorem disjoint (h : S.Joins x y z) (hd : S.Disjoint l m) : S.Disjoint (x ++ l) (y ++ m) := by
  intro c hc
  obtain ⟨_, c₂, _, _, hc⟩ := (h l m c).mp hc
  exact hd c₂ hc

end Joins

-- Two parts of which neither stands for the other.
structure Clash (S : TermSignature α) (p q : α) : Prop where
  ne          : p ≠ q
  not_hole    : p ≠ S.hole ∧ q ≠ S.hole
  not_marker  : S.marker p = false ∧ S.marker q = false
  not_narrows : ¬S.narrows p q ∧ ¬S.narrows q p

theorem Clash.disjoint (h : S.Clash p q) : S.Disjoint (p :: l) (q :: m) := by
  rintro c ⟨hl, hm⟩
  obtain ⟨r, _, hc, hp, _⟩ := (Refines.cons_iff h.not_hole.left).mp hl
  obtain ⟨r', _, hc', hq, _⟩ := (Refines.cons_iff h.not_hole.right).mp hm
  obtain ⟨hr, _⟩ := List.cons.inj (hc.symm.trans hc')
  subst hr
  cases hp <;> cases hq
  case inl.inl hp hq => exact h.ne (hp.trans hq.symm)
  case inl.inr hp hq => exact h.not_narrows.right (hp ▸ hq)
  case inr.inl hp hq => exact h.not_narrows.left (hq ▸ hp)
  case inr.inr hp hq =>
    match S.narrows_nested hp hq with
    | .inl he        => exact h.ne he
    | .inr (.inl hn) => exact h.not_narrows.left hn
    | .inr (.inr hn) => exact h.not_narrows.right hn

-- What happens at the front of the two lists. Behind it the lists go on as `l₀` and `m₀`, and what
-- is in front of these has become `x'` and `y'`. Markers are passed by, first those of the left list,
-- unless both lists have the same one.
inductive Advances (S : TermSignature α) :
    (l m l₀ m₀ x' y' : List α) → Prop
  | same {p : α} {l m : List α} : S.Advances (p :: l) (p :: m) l m [p] [p]
  | markerLeft {k p : α} {l m : List α} : S.marker k = true → k ≠ p →
      S.Advances (k :: l) (p :: m) l (p :: m) [k] []
  | markerRight {k p : α} {l m : List α} : S.marker p = false → S.marker k = true →
      S.Advances (p :: l) (k :: m) (p :: l) m [] [k]
  | narrowLeft {p q : α} {l m : List α} : S.narrows p q → S.Advances (p :: l) (q :: m) l m [q] [q]
  | narrowRight {p q : α} {l m : List α} : S.narrows q p → S.Advances (p :: l) (q :: m) l m [p] [p]
  | fillLeft {q : α} {t l m : List α} : S.Forest 1 (q :: t) → S.marker q = false → q ≠ S.hole →
      S.Advances (S.hole :: l) (q :: t ++ m) l m (q :: S.erase t) (q :: t)
  | fillRight {p : α} {t l m : List α} : S.Forest 1 (p :: t) → S.marker p = false → p ≠ S.hole →
      S.Advances (p :: t ++ l) (S.hole :: m) l m (p :: t) (p :: S.erase t)

-- The lists become `l'` and `m'`.
inductive Merges (S : TermSignature α) : (l m l' m' : List α) → Prop
  | nil : S.Merges [] [] [] []
  | step {l m l₀ m₀ x' y' l' m' : List α} : S.Advances l m l₀ m₀ x' y' → S.Merges l₀ m₀ l' m' →
      S.Merges l m (x' ++ l') (y' ++ m')

-- The lists clash somewhere.
inductive Clashes (S : TermSignature α) : (l m : List α) → Prop
  | here {p q : α} {l m : List α} : S.Clash p q → S.Clashes (p :: l) (q :: m)
  | step {l m l₀ m₀ x' y' : List α} : S.Advances l m l₀ m₀ x' y' → S.Clashes l₀ m₀ → S.Clashes l m

namespace Advances

theorem forest (h : S.Advances l m l₀ m₀ x' y') (hl : S.Forest n l) (hm : S.Forest n m) :
    ∃ k, S.Forest k l₀ ∧ S.Forest k m₀ := by
  cases h with
  | same =>
    obtain ⟨k, hn, hl₀⟩ := hl.of_cons
    subst hn
    cases hm with
    | cons hm₀ => exact ⟨_, hl₀, hm₀⟩
  | markerLeft hk    => exact ⟨n, hl.of_marker hk, hm⟩
  | markerRight _ hk => exact ⟨n, hl, hm.of_marker hk⟩
  | narrowLeft hpq =>
    obtain ⟨k, hn, hl₀⟩ := hl.of_cons
    subst hn
    cases hm with
    | cons hm₀ => exact ⟨_, hl₀, S.arity_narrows hpq ▸ hm₀⟩
  | narrowRight hpq =>
    obtain ⟨k, hn, hl₀⟩ := hl.of_cons
    subst hn
    cases hm with
    | cons hm₀ => exact ⟨_, hl₀, S.arity_narrows hpq ▸ hm₀⟩
  | fillLeft ht =>
    obtain ⟨k, hn, _⟩ := hl.of_cons
    subst hn
    exact ⟨k, hl.of_hole, hm.of_append ht⟩
  | fillRight ht =>
    obtain ⟨k, hn, _⟩ := hm.of_cons
    subst hn
    exact ⟨k, hl.of_append ht, hm.of_hole⟩

theorem length_lt (h : S.Advances l m l₀ m₀ x' y') :
    l₀.length + m₀.length < l.length + m.length := by
  cases h <;> simp <;> omega

-- Without the markers, the front parts join to what both have become.
theorem joins (h : S.Advances l m l₀ m₀ x' y') : ∃ x y, S.erase l = x ++ S.erase l₀ ∧
    S.erase m = y ++ S.erase m₀ ∧ S.Joins x y (S.erase x') ∧ S.erase y' = S.erase x' := by
  cases h with
  | @same p l m =>
    cases hp : S.marker p with
    | true =>
      simp only [erase_cons_marker hp, erase_nil]
      exact ⟨[], [], rfl, rfl, .nil, trivial⟩
    | false =>
      simp only [erase_cons_unmarked hp, erase_nil]
      exact ⟨[p], [p], rfl, rfl, .same, trivial⟩
  | markerLeft hk =>
    simp only [erase_cons_marker hk, erase_nil]
    exact ⟨[], [], rfl, rfl, .nil, trivial⟩
  | markerRight _ hk =>
    simp only [erase_cons_marker hk, erase_nil]
    exact ⟨[], [], rfl, rfl, .nil, trivial⟩
  | @narrowLeft p q l m hpq =>
    obtain ⟨hp, hq⟩ := S.narrows_unmarked hpq
    obtain ⟨hp', hq'⟩ := S.narrows_filled hpq
    simp only [erase_cons_unmarked hp, erase_cons_unmarked hq, erase_nil]
    exact ⟨[p], [q], rfl, rfl, .narrow hp' hq' (.inr hpq), trivial⟩
  | @narrowRight p q l m hpq =>
    obtain ⟨hq, hp⟩ := S.narrows_unmarked hpq
    obtain ⟨hq', hp'⟩ := S.narrows_filled hpq
    simp only [erase_cons_unmarked hp, erase_cons_unmarked hq, erase_nil]
    exact ⟨[p], [q], rfl, rfl, (Joins.narrow hq' hp' (.inr hpq)).symm, trivial⟩
  | @fillLeft q t l m ht hq =>
    have hj := Joins.fill ht.erase erase_unmarked
    simp only [erase_append, erase_cons_unmarked hq, erase_cons_unmarked S.hole_unmarked,
      erase_unmarked.erase_eq] at hj ⊢
    exact ⟨[S.hole], q :: S.erase t, rfl, rfl, hj, trivial⟩
  | @fillRight p t l m ht hp =>
    have hj := (Joins.fill ht.erase erase_unmarked).symm
    simp only [erase_append, erase_cons_unmarked hp, erase_cons_unmarked S.hole_unmarked,
      erase_unmarked.erase_eq] at hj ⊢
    exact ⟨p :: S.erase t, [S.hole], rfl, rfl, hj, trivial⟩

theorem refines (h : S.Advances l m l₀ m₀ x' y') (hl : S.Refines l₀ l') (hm : S.Refines m₀ m') :
    S.Refines l (x' ++ l') ∧ S.Refines m (y' ++ m') := by
  cases h with
  | same            => exact ⟨.same hl, .same hm⟩
  | markerLeft      => exact ⟨.same hl, hm⟩
  | markerRight     => exact ⟨hl, .same hm⟩
  | narrowLeft hpq  => exact ⟨.narrow hpq hl, .same hm⟩
  | narrowRight hpq => exact ⟨.same hl, .narrow hpq hm⟩
  | fillLeft ht hq =>
    have ht := ht.erase
    rw [erase_cons_unmarked hq] at ht
    exact ⟨.fill ht (Unmarked.cons.mpr ⟨hq, erase_unmarked⟩) hl, (Refines.refl _).append hm⟩
  | fillRight ht hp =>
    have ht := ht.erase
    rw [erase_cons_unmarked hp] at ht
    exact ⟨(Refines.refl _).append hl, .fill ht (Unmarked.cons.mpr ⟨hp, erase_unmarked⟩) hm⟩

-- A list changes at its front or behind it.
theorem left_eq_iff (h : S.Advances l m l₀ m₀ x' y') (l' : List α) :
    x' ++ l' = l ↔ x' ++ l₀ = l ∧ l' = l₀ := by
  cases h with
  | @narrowLeft p q _ _ hpq =>
    have hne : q ≠ p := fun he => S.narrows_irrefl (he ▸ hpq)
    simp [hne]
  | fillLeft _ _ hne => simp [hne]
  | _ => simp

theorem right_eq_iff (h : S.Advances l m l₀ m₀ x' y') (m' : List α) :
    y' ++ m' = m ↔ y' ++ m₀ = m ∧ m' = m₀ := by
  cases h with
  | @narrowRight p q _ _ hpq =>
    have hne : p ≠ q := fun he => S.narrows_irrefl (he ▸ hpq)
    simp [hne]
  | fillRight _ _ hne => simp [hne]
  | _ => simp

-- At the front of two forests there is a clash if there is nothing else to do.
theorem exists_of_forest (hl : S.Forest (n + 1) l) (hm : S.Forest (n + 1) m) :
    (∃ p q l₀ m₀, l = p :: l₀ ∧ m = q :: m₀ ∧ S.Clash p q) ∨
    ∃ l₀ m₀ x' y', S.Advances l m l₀ m₀ x' y' := by
  obtain ⟨p, l₀, hpl, _⟩ := hl.exists_cons
  obtain ⟨q, m₀, hqm, _⟩ := hm.exists_cons
  subst hpl hqm
  by_cases he : p = q
  case pos =>
    subst he
    exact .inr ⟨_, _, _, _, .same⟩
  cases hp : S.marker p
  case true => exact .inr ⟨_, _, _, _, .markerLeft hp he⟩
  cases hq : S.marker q
  case true => exact .inr ⟨_, _, _, _, .markerRight hp hq⟩
  by_cases hph : p = S.hole
  case pos =>
    rw [Nat.add_comm] at hm
    obtain ⟨x, y, hxy, hx, _⟩ := hm.split
    obtain ⟨q', t, ht, _⟩ := hx.exists_cons
    subst ht
    obtain ⟨hqq, hm₀⟩ := List.cons.inj hxy
    subst hqq hm₀ hph
    exact .inr ⟨_, _, _, _, .fillLeft hx hq fun h => he h.symm⟩
  by_cases hqh : q = S.hole
  case pos =>
    rw [Nat.add_comm] at hl
    obtain ⟨x, y, hxy, hx, _⟩ := hl.split
    obtain ⟨p', t, ht, _⟩ := hx.exists_cons
    subst ht
    obtain ⟨hpp, hl₀⟩ := List.cons.inj hxy
    subst hpp hl₀ hqh
    exact .inr ⟨_, _, _, _, .fillRight hx hp he⟩
  by_cases hpq : S.narrows p q
  case pos => exact .inr ⟨_, _, _, _, .narrowLeft hpq⟩
  by_cases hqp : S.narrows q p
  case pos => exact .inr ⟨_, _, _, _, .narrowRight hqp⟩
  exact .inl ⟨p, q, l₀, m₀, rfl, rfl, he, ⟨hph, hqh⟩, ⟨hp, hq⟩, ⟨hpq, hqp⟩⟩

end Advances

-- Two forests of as many terms merge, or they clash.
theorem merges_or_clashes (hl : S.Forest n l) (hm : S.Forest n m) :
    (∃ l' m', S.Merges l m l' m') ∨ S.Clashes l m := by
  induction hs : l.length + m.length using Nat.strongRecOn generalizing n l m with
  | _ s ih =>
    cases n with
    | zero =>
      cases hl
      cases hm
      exact .inl ⟨[], [], .nil⟩
    | succ n =>
      match Advances.exists_of_forest hl hm with
      | .inl ⟨p, q, l₀, m₀, hpl, hqm, h⟩ =>
        subst hpl hqm
        exact .inr (.here h)
      | .inr ⟨l₀, m₀, x', y', h⟩ =>
        obtain ⟨k, hl₀, hm₀⟩ := h.forest hl hm
        match ih _ (hs ▸ h.length_lt) hl₀ hm₀ rfl with
        | .inl ⟨_, _, hmerge⟩ => exact .inl ⟨_, _, .step h hmerge⟩
        | .inr hclash         => exact .inr (.step h hclash)

theorem Clashes.disjoint (h : S.Clashes l m) : S.Disjoint (S.erase l) (S.erase m) := by
  induction h with
  | here h =>
    rw [erase_cons_unmarked h.not_marker.left, erase_cons_unmarked h.not_marker.right]
    exact h.disjoint
  | step h _ ih =>
    obtain ⟨x, y, hl, hm, hj, _⟩ := h.joins
    rw [hl, hm]
    exact hj.disjoint ih

namespace Merges

theorem erase_eq (h : S.Merges l m l' m') : S.erase l' = S.erase m' := by
  induction h with
  | nil => rfl
  | step h _ ih =>
    obtain ⟨_, _, _, _, _, he⟩ := h.joins
    rw [erase_append, erase_append, he, ih]

theorem meet (h : S.Merges l m l' m') : S.IsMeet (S.erase l) (S.erase m) (S.erase l') := by
  induction h with
  | nil =>
    intro c
    exact and_self_iff
  | step h _ ih =>
    obtain ⟨x, y, hl, hm, hj, _⟩ := h.joins
    rw [hl, hm, erase_append]
    exact hj.meet ih

theorem refines (h : S.Merges l m l' m') : S.Refines l l' ∧ S.Refines m m' := by
  induction h with
  | nil         => exact ⟨.nil, .nil⟩
  | step h _ ih => exact h.refines ih.left ih.right

-- The right list remains as it is if it refines the left one.
theorem right_eq_iff (h : S.Merges l m l' m') : m' = m ↔ S.Refines (S.erase l) (S.erase m) := by
  have hmeet := h.meet
  rw [h.erase_eq] at hmeet
  constructor
  case mp =>
    intro he
    exact ((hmeet _).mpr (he ▸ Refines.refl _)).left
  case mpr =>
    intro hr
    have hm := h.refines.right
    have hr' := (hmeet _).mp ⟨hr, .refl _⟩
    exact (hm.eq_of_erase_eq (hm.erase.antisymm hr')).symm

end Merges
end TermSignature
