import Mathlib.Algebra.GroupWithZero.Nat
import Mathlib.Data.List.Forall2
import Mathlib.Data.List.Induction
import Reowolf.Library.Unification

-- Terms with some of their subterms behind a marker.
namespace TermSignature

variable {α : Type*} {S : TermSignature α} {n : Nat} {p k : α}
variable {l m t c l' m' l₀ m₀ x' y' : List α} {ss ts : List (α × List α)}

-- The marked terms in a list, each with its marker. There are no other markers within them.
inductive Sections (S : TermSignature α) : List α → List (α × List α) → Prop
  | nil : S.Sections [] []
  | plain {p : α} {l : List α} {ss : List (α × List α)} : S.marker p = false → S.Sections l ss →
      S.Sections (p :: l) ss
  | marked {k : α} {t l : List α} {ss : List (α × List α)} : S.marker k = true → S.Forest 1 t →
      S.Unmarked t → S.Sections l ss → S.Sections (k :: (t ++ l)) ((k, t) :: ss)

-- Two refinements of a list compare as they do without the markers.
theorem Refines.of_erase (h : S.Refines l m) (h' : S.Refines l c)
    (he : S.Refines (S.erase m) (S.erase c)) : S.Refines m c := by
  induction h generalizing c with
  | nil => exact h'
  | @same p l m _ ih =>
    cases hp : S.marker p with
    | true =>
      cases h' with
      | same h' =>
        rw [erase_cons_marker hp, erase_cons_marker hp] at he
        exact same (ih h' he)
      | narrow hn =>
        rw [(S.narrows_unmarked hn).left] at hp
        cases hp
      | fill =>
        rw [S.hole_unmarked] at hp
        cases hp
    | false =>
      rw [erase_cons_unmarked hp] at he
      cases h' with
      | same h' =>
        rw [erase_cons_unmarked hp] at he
        exact same (ih h' he.of_cons)
      | narrow hn h' =>
        rw [erase_cons_unmarked (S.narrows_unmarked hn).right] at he
        obtain ⟨_, _, hc, _, he⟩ := (cons_iff (S.narrows_filled hn).left).mp he
        exact narrow hn (ih h' ((List.cons.inj hc).right ▸ he))
      | fill ht hu h' =>
        rw [erase_append, hu.erase_eq] at he
        obtain ⟨_, _, hc, hx, _, he⟩ := hole_iff.mp he
        obtain ⟨_, hc⟩ := ht.unique hx hc
        exact fill ht hu (ih h' (hc ▸ he))
  | narrow hn _ ih =>
    obtain ⟨_, _, hc, hr, hl⟩ := (cons_iff (S.narrows_filled hn).left).mp h'
    subst hc
    have hr : S.marker _ = false := hr.elim (fun hr => hr ▸ (S.narrows_unmarked hn).left)
      fun hr => (S.narrows_unmarked hr).right
    rw [erase_cons_unmarked (S.narrows_unmarked hn).right, erase_cons_unmarked hr] at he
    obtain ⟨_, _, hc, hq, he⟩ := (cons_iff (S.narrows_filled hn).right).mp he
    obtain ⟨hqr, hc⟩ := List.cons.inj hc
    exact (cons_iff (S.narrows_filled hn).right).mpr ⟨_, _, rfl, hqr ▸ hq, ih hl (hc ▸ he)⟩
  | fill ht hu _ ih =>
    obtain ⟨_, _, hc, ht', hu', hl⟩ := hole_iff.mp h'
    subst hc
    rw [erase_append, erase_append, hu.erase_eq, hu'.erase_eq] at he
    obtain ⟨_, _, hc, hx, he⟩ := append_iff.mp he
    obtain ⟨hxt, hc⟩ := (hx.forest ht).unique ht' hc.symm
    exact (hxt ▸ hx).append (ih hl (hc ▸ he))

theorem Refines.length_le (h : S.Refines l m) : l.length ≤ m.length := by
  induction h with
  | nil => exact Nat.le_refl _
  | same _ ih | narrow _ _ ih => exact Nat.succ_le_succ ih
  | fill ht _ _ ih =>
    have hpos := List.length_pos_iff.mpr ht.ne_nil
    rw [List.length_cons, List.length_append]
    omega

-- Parts that are neither a hole nor narrowed any further.
theorem Refines.eq_of_fixed (h : S.Refines l m) (hf : ∀ p ∈ l, p ≠ S.hole ∧ ∀ q, ¬S.narrows p q) :
    m = l := by
  induction h with
  | nil => rfl
  | same _ ih      => rw [ih fun p hp => hf p (List.mem_cons_of_mem _ hp)]
  | narrow hn      => exact absurd hn ((hf _ List.mem_cons_self).right _)
  | fill           => exact absurd rfl (hf _ List.mem_cons_self).left

theorem ne_hole_of_marker (h : S.marker k = true) : k ≠ S.hole := by
  intro he
  rw [he, S.hole_unmarked] at h
  cases h

namespace Sections

theorem unmarked_append (hu : S.Unmarked t) (h : S.Sections l ss) : S.Sections (t ++ l) ss := by
  induction t with
  | nil => exact h
  | cons p t ih =>
    obtain ⟨hp, hu⟩ := Unmarked.cons.mp hu
    exact .plain hp (ih hu)

theorem of_unmarked (hu : S.Unmarked l) : S.Sections l [] := by
  induction l with
  | nil => exact .nil
  | cons p l ih =>
    obtain ⟨hp, hu⟩ := Unmarked.cons.mp hu
    exact .plain hp (ih hu)

theorem unmarked (h : S.Sections l []) : S.Unmarked l := by
  generalize hs : [] = ss at h
  induction h with
  | nil             => exact fun _ h => absurd h List.not_mem_nil
  | plain hp _ ih   => exact Unmarked.cons.mpr ⟨hp, ih hs⟩
  | marked          => cases hs

theorem of_append (hu : S.Unmarked t) (h : S.Sections (t ++ l) ss) : S.Sections l ss := by
  induction t with
  | nil => exact h
  | cons p t ih =>
    obtain ⟨hp, hu⟩ := Unmarked.cons.mp hu
    generalize hm : (p :: t) ++ l = m at h
    cases h with
    | nil => cases hm
    | plain _ h =>
      obtain ⟨_, hm⟩ := List.cons.inj hm
      subst hm
      exact ih hu h
    | marked hk => exact absurd (hp.symm.trans ((List.cons.inj hm).left ▸ hk)) Bool.false_ne_true

theorem append (h : S.Sections l ss) (h' : S.Sections m ts) : S.Sections (l ++ m) (ss ++ ts) := by
  induction h with
  | nil            => exact h'
  | plain hp _ ih  => exact .plain hp ih
  | marked hk ht hu _ ih =>
    rw [List.cons_append, List.append_assoc]
    exact .marked hk ht hu ih

-- A list that starts with a marker and the term behind it.
theorem of_marked (hk : S.marker k = true) (ht : S.Forest 1 t)
    (h : S.Sections (k :: (t ++ l)) ss) : ∃ ts, ss = (k, t) :: ts ∧ S.Sections l ts := by
  generalize hm : k :: (t ++ l) = m at h
  cases h with
  | nil => cases hm
  | plain hp => exact absurd (hp.symm.trans ((List.cons.inj hm).left ▸ hk)) Bool.false_ne_true
  | marked _ ht' _ h =>
    obtain ⟨hk', hm⟩ := List.cons.inj hm
    obtain ⟨ht', hl⟩ := ht.unique ht' hm
    subst hk' ht' hl
    exact ⟨_, rfl, h⟩

theorem unique (h : S.Sections l ss) (h' : S.Sections l ts) : ss = ts := by
  induction h generalizing ts with
  | nil =>
    cases h'
    rfl
  | plain hp _ ih =>
    cases h' with
    | plain _ h'   => exact ih h'
    | marked hk    => exact absurd (hp.symm.trans hk) Bool.false_ne_true
  | marked hk ht _ _ ih =>
    obtain ⟨_, hts, h'⟩ := of_marked hk ht h'
    rw [hts, ih h']

theorem length_le (h : S.Sections l ss) : ss.length ≤ l.length := by
  induction h with
  | nil           => exact Nat.le_refl 0
  | plain _ _ ih  => exact Nat.le_succ_of_le ih
  | marked _ _ _ _ ih =>
    rw [List.length_cons, List.length_cons, List.length_append]
    omega

-- The term behind a marker is a whole one.
theorem forest (h : S.Sections l ss) : ∀ s ∈ ss, S.Forest 1 s.2 ∧ S.Unmarked s.2 := by
  induction h with
  | nil                  => exact fun _ h => absurd h List.not_mem_nil
  | plain _ _ ih         => exact ih
  | marked _ ht hu _ ih  => exact List.forall_mem_cons.mpr ⟨⟨ht, hu⟩, ih⟩

theorem mem (h : S.Sections l ss) : ∀ s ∈ ss, ∀ p ∈ s.2, p ∈ l := by
  induction h with
  | nil => exact fun _ h => absurd h List.not_mem_nil
  | plain _ _ ih => exact fun s hs p hp => List.mem_cons_of_mem _ (ih s hs p hp)
  | marked _ _ _ _ ih =>
    refine List.forall_mem_cons.mpr ⟨fun p hp => ?_, fun s hs p hp => ?_⟩
    · exact List.mem_cons_of_mem _ (List.mem_append_left _ hp)
    · exact List.mem_cons_of_mem _ (List.mem_append_right _ (ih s hs p hp))

-- The markers of a list remain when it is refined, and what they mark is refined.
theorem refines (h : S.Sections l ss) (hr : S.Refines l l') :
    ∃ ss', S.Sections l' ss' ∧ List.Forall₂ (fun s s' => s.1 = s'.1 ∧ S.Refines s.2 s'.2) ss ss' := by
  induction h generalizing l' with
  | nil =>
    cases hr
    exact ⟨[], .nil, .nil⟩
  | plain hp _ ih =>
    cases hr with
    | same hr =>
      obtain ⟨ss', hs, hf⟩ := ih hr
      exact ⟨ss', .plain hp hs, hf⟩
    | narrow hn hr =>
      obtain ⟨ss', hs, hf⟩ := ih hr
      exact ⟨ss', .plain (S.narrows_unmarked hn).right hs, hf⟩
    | fill _ hu hr =>
      obtain ⟨ss', hs, hf⟩ := ih hr
      exact ⟨ss', hs.unmarked_append hu, hf⟩
  | @marked k t l ss hk ht hu _ ih =>
    obtain ⟨q, m, hm, hq, hr⟩ := (Refines.cons_iff (ne_hole_of_marker hk)).mp hr
    obtain ⟨t', m', hc, ht', hm'⟩ := Refines.append_iff.mp hr
    obtain ⟨ss', hs, hf⟩ := ih hm'
    subst hm hc
    cases hq with
    | inl hq =>
      subst hq
      exact ⟨_, .marked hk (ht'.forest ht) (ht'.unmarked hu) hs, .cons ⟨rfl, ht'⟩ hf⟩
    | inr hn =>
      rw [(S.narrows_unmarked hn).left] at hk
      cases hk

-- The markers of the refined list are those of the list.
theorem markers (h : S.Sections l ss) (hr : S.Refines l l') :
    ∃ ss', S.Sections l' ss' ∧ ∀ s' ∈ ss', ∃ s ∈ ss, s.1 = s'.1 := by
  obtain ⟨ss', hs, hf⟩ := h.refines hr
  refine ⟨ss', hs, ?_⟩
  clear h hs hr
  induction hf with
  | nil => exact fun _ h => absurd h List.not_mem_nil
  | cons hst _ ih =>
    refine List.forall_mem_cons.mpr ⟨⟨_, List.mem_cons_self, hst.left⟩, fun s' hs' => ?_⟩
    obtain ⟨s, hs, he⟩ := ih s' hs'
    exact ⟨s, List.mem_cons_of_mem _ hs, he⟩

end Sections

-- Two lists with a common refinement merge.
theorem exists_merges (hl : S.Forest n l) (hm : S.Forest n m) (h : S.Refines (S.erase l) c)
    (h' : S.Refines (S.erase m) c) : ∃ l' m', S.Merges l m l' m' := by
  obtain hmerge | hclash := merges_or_clashes hl hm
  · exact hmerge
  · exact absurd ⟨h, h'⟩ (hclash.disjoint c)

-- What `l` stands for if the markers stand for given terms.
def Covers (S : TermSignature α) (value : α → List α → Prop) (l c : List α) : Prop :=
  ∃ m ss, S.Refines l m ∧ S.erase m = c ∧ S.Sections m ss ∧ ∀ s ∈ ss, value s.1 s.2

namespace Covers

variable {value : α → List α → Prop}

theorem refines (h : S.Covers value l c) : S.Refines (S.erase l) c := by
  obtain ⟨_, _, hr, hc, _⟩ := h
  exact hc ▸ hr.erase

-- The term behind a marker is refined by what the marker stands for.
theorem behind (h : S.Covers value l c) (hs : S.Sections l ss) :
    ∀ s ∈ ss, ∃ t, value s.1 t ∧ S.Refines s.2 t := by
  obtain ⟨_, _, hr, _, hs', hv⟩ := h
  obtain ⟨_, hs'', hf⟩ := hs.refines hr
  cases hs'.unique hs''
  clear hs hs' hs''
  induction hf with
  | nil => exact fun _ h => absurd h List.not_mem_nil
  | cons hst _ ih =>
    obtain ⟨hv, hvs⟩ := List.forall_mem_cons.mp hv
    exact List.forall_mem_cons.mpr ⟨⟨_, hst.left ▸ hv, hst.right⟩, ih hvs⟩

-- A list between another one and what that stands for.
theorem of_refines (h : S.Covers value l c) (hr : S.Refines l m) (hc : S.Refines (S.erase m) c) :
    S.Covers value m c := by
  obtain ⟨_, _, hl, he, hs⟩ := h
  exact ⟨_, _, hr.of_erase hl (he ▸ hc), he, hs⟩

theorem merges (h : S.Covers value l c) (hc : S.Refines (S.erase m) c) (hm : S.Merges l m l' m') :
    S.Covers value l' c ∧ S.Refines (S.erase m') c := by
  have hr := (hm.meet c).mp ⟨h.refines, hc⟩
  exact ⟨h.of_refines hm.refines.left hr, hm.erase_eq ▸ hr⟩

end Covers

-- The terms behind the markers of a list are replaced by others.
inductive Replaces (S : TermSignature α) (R : α → List α → List α → Prop) : (l l' : List α) → Prop
  | nil : S.Replaces R [] []
  | plain {p : α} {l l' : List α} : S.marker p = false → S.Replaces R l l' →
      S.Replaces R (p :: l) (p :: l')
  | marked {k : α} {t t' l l' : List α} : S.marker k = true → S.Forest 1 t → S.Unmarked t →
      S.Refines t t' → R k t t' → S.Replaces R l l' → S.Replaces R (k :: (t ++ l)) (k :: (t' ++ l'))

namespace Replaces

variable {R : α → List α → List α → Prop}

theorem refines (h : S.Replaces R l l') : S.Refines l l' := by
  induction h with
  | nil                     => exact .nil
  | plain _ _ ih            => exact .same ih
  | marked _ _ _ ht _ _ ih  => exact .same (ht.append ih)

theorem sections (h : S.Replaces R l l') :
    ∃ ss', S.Sections l' ss' ∧ ∀ s' ∈ ss', ∃ t, R s'.1 t s'.2 := by
  induction h with
  | nil => exact ⟨[], .nil, fun _ h => absurd h List.not_mem_nil⟩
  | plain hp _ ih =>
    obtain ⟨ss', hs, hf⟩ := ih
    exact ⟨ss', .plain hp hs, hf⟩
  | marked hk ht hu hr hR _ ih =>
    obtain ⟨ss', hs, hf⟩ := ih
    exact ⟨_, .marked hk (hr.forest ht) (hr.unmarked hu) hs, List.forall_mem_cons.mpr ⟨⟨_, hR⟩, hf⟩⟩

-- The list remains below another one if what is behind the markers does.
theorem refines_of (h : S.Replaces R l l') (hr : S.Refines l m) (hm : S.Sections m ts)
    (hR : ∀ k t t' c, R k t t' → (k, c) ∈ ts → S.Refines t' c) : S.Refines l' m := by
  induction h generalizing m ts with
  | nil => exact hr
  | @plain p l l' hp _ ih =>
    cases hr with
    | same hr =>
      cases hm with
      | plain _ hm => exact .same (ih hr hm hR)
      | marked hk  => exact absurd (hp.symm.trans hk) Bool.false_ne_true
    | narrow hn hr =>
      cases hm with
      | plain _ hm => exact .narrow hn (ih hr hm hR)
      | marked hk  => exact absurd ((S.narrows_unmarked hn).right.symm.trans hk) Bool.false_ne_true
    | fill ht hu hr => exact .fill ht hu (ih hr (hm.of_append hu) hR)
  | @marked k t t' l l' hk ht hu htt hR' _ ih =>
    obtain ⟨q, _, he, hq, hr⟩ := (Refines.cons_iff (ne_hole_of_marker hk)).mp hr
    obtain ⟨c, _, hc, htc, hlm⟩ := Refines.append_iff.mp hr
    have hq : q = k := hq.elim Eq.symm fun hn =>
      absurd ((S.narrows_unmarked hn).left.symm.trans hk) Bool.false_ne_true
    subst hq he hc
    have hc := htc.forest ht
    obtain ⟨ts', hts, hs⟩ := hm.of_marked hk hc
    subst hts
    refine .same ((hR q t t' c hR' List.mem_cons_self).append (ih hlm hs fun k t t' c h hm => ?_))
    exact hR k t t' c h (List.mem_cons_of_mem _ hm)

end Replaces

theorem Covers.replaces {value : α → List α → Prop} {R : α → List α → List α → Prop}
    (h : S.Covers value l c) (hr : S.Replaces R l l')
    (hR : ∀ k t t' c, R k t t' → value k c → S.Refines t' c) : S.Covers value l' c := by
  obtain ⟨m, ss, hl, he, hs, hv⟩ := h
  exact ⟨m, ss, hr.refines_of hl hs fun k t t' c h hm => hR k t t' c h (hv _ hm), he, hs, hv⟩

-- Whatever holds of the parts of two lists holds of the parts that they become.
theorem Advances.all {P : α → Prop} (h : S.Advances l m l₀ m₀ x' y') (hl : ∀ p ∈ l, P p)
    (hm : ∀ p ∈ m, P p) : (∀ p ∈ l₀, P p) ∧ (∀ p ∈ m₀, P p) ∧ (∀ p ∈ x', P p) ∧ ∀ p ∈ y', P p := by
  have herase {t : List α} (ht : ∀ p ∈ t, P p) : ∀ p ∈ S.erase t, P p :=
    fun p hp => ht p (List.mem_of_mem_filter hp)
  cases h with
  | fillLeft =>
    obtain ⟨hq, hm⟩ := List.forall_mem_append.mp hm
    obtain ⟨hq', ht⟩ := List.forall_mem_cons.mp hq
    exact ⟨(List.forall_mem_cons.mp hl).right, hm, List.forall_mem_cons.mpr ⟨hq', herase ht⟩, hq⟩
  | fillRight =>
    obtain ⟨hp, hl⟩ := List.forall_mem_append.mp hl
    obtain ⟨hp', ht⟩ := List.forall_mem_cons.mp hp
    exact ⟨hl, (List.forall_mem_cons.mp hm).right, hp, List.forall_mem_cons.mpr ⟨hp', herase ht⟩⟩
  | _ => simp_all

theorem Merges.all {P : α → Prop} (h : S.Merges l m l' m') (hl : ∀ p ∈ l, P p)
    (hm : ∀ p ∈ m, P p) : (∀ p ∈ l', P p) ∧ ∀ p ∈ m', P p := by
  induction h with
  | nil => exact ⟨hl, hm⟩
  | step h _ ih =>
    obtain ⟨hl, hm, hx, hy⟩ := h.all hl hm
    obtain ⟨hl', hm'⟩ := ih hl hm
    exact ⟨List.forall_mem_append.mpr ⟨hx, hl'⟩, List.forall_mem_append.mpr ⟨hy, hm'⟩⟩

-- Terms that have a common refinement have a most general one, and its parts are parts of theirs.
theorem exists_mostGeneralOf {P : α → Prop} {ls : List (List α)} (hne : ls ≠ [])
    (h : ∀ l ∈ ls, S.Forest 1 l ∧ S.Unmarked l ∧ ∀ p ∈ l, P p) (hc : ∀ l ∈ ls, S.Refines l c) :
    ∃ r, S.MostGeneralOf ls r ∧ S.Forest 1 r ∧ S.Unmarked r ∧ ∀ p ∈ r, P p := by
  induction ls using List.reverseRecOn with
  | nil => exact absurd rfl hne
  | append_singleton ls l ih =>
    obtain ⟨hls, hl⟩ := List.forall_mem_append.mp h
    obtain ⟨hcs, hc⟩ := List.forall_mem_append.mp hc
    obtain ⟨hf, hu, hp⟩ := hl l List.mem_cons_self
    have hc := hc l List.mem_cons_self
    by_cases hnil : ls = []
    case pos =>
      subst hnil
      exact ⟨l, .singleton l, hf, hu, hp⟩
    case neg =>
      obtain ⟨r, hr, hfr, hur, hpr⟩ := ih hnil hls hcs
      obtain ⟨l', m', hm⟩ := exists_merges (c := c) hfr hf (by rw [hur.erase_eq]; exact hr.iff.mp hcs)
        (by rwa [hu.erase_eq])
      have hl' := hm.refines.left
      have hmeet := hm.meet
      rw [hur.erase_eq, hu.erase_eq, (hl'.unmarked hur).erase_eq] at hmeet
      exact ⟨l', hr.append hmeet, hl'.forest hfr, hl'.unmarked hur, (hm.all hpr hp).left⟩

theorem MostGeneralOf.all {P : α → Prop} {ls : List (List α)} (hr : S.MostGeneralOf ls r)
    (hne : ls ≠ []) (h : ∀ l ∈ ls, S.Forest 1 l ∧ S.Unmarked l ∧ ∀ p ∈ l, P p) : ∀ p ∈ r, P p := by
  obtain ⟨r', hr', _, _, hp⟩ := exists_mostGeneralOf hne h hr.left
  exact hr.unique hr' ▸ hp

-- Weights for parts that become heavier when they are narrowed or filled.
structure Weighs (S : TermSignature α) (weight : α → Nat) : Prop where
  hole    : weight S.hole = 1
  others  : ∀ p, p ≠ S.hole → 1 < weight p
  narrows : ∀ p q, S.narrows p q → weight p < weight q

def total (weight : α → Nat) (l : List α) : Nat :=
  (l.map weight).sum

theorem Refines.total_le {weight : α → Nat} (hw : S.Weighs weight) (h : S.Refines l m) :
    total weight l ≤ total weight m ∧ (total weight l = total weight m → l = m) := by
  induction h with
  | nil => exact ⟨Nat.le_refl _, fun _ => rfl⟩
  | @same p l m _ ih =>
    simp only [total, List.map_cons, List.sum_cons] at ih ⊢
    exact ⟨by omega, fun he => congrArg _ (ih.right (by omega))⟩
  | @narrow p q l m hn _ ih =>
    have hlt := hw.narrows p q hn
    simp only [total, List.map_cons, List.sum_cons] at ih ⊢
    exact ⟨by omega, fun he => by omega⟩
  | @fill t l m ht _ _ ih =>
    simp only [total, List.map_cons, List.sum_cons, List.map_append, List.sum_append, hw.hole] at ih ⊢
    obtain ⟨p, t', hpt, _⟩ := ht.exists_cons
    subst hpt
    simp only [List.map_cons, List.sum_cons]
    by_cases hp : p = S.hole
    case pos =>
      subst hp
      have ht' := Forest.eq_hole ht
      subst ht'
      simp only [hw.hole, List.map_nil, List.sum_nil]
      exact ⟨by omega, fun he => congrArg _ (ih.right (by omega))⟩
    case neg =>
      have hlt := hw.others p hp
      exact ⟨by omega, fun he => by omega⟩

-- A clash remains when either list is refined.
theorem Clashes.of_refines (h : S.Clashes l m) (hl : S.Forest n l) (hm : S.Forest n m)
    (hr : S.Refines l l') : S.Clashes l' m := by
  match merges_or_clashes (hr.forest hl) hm with
  | .inl ⟨_, _, hmerge⟩ =>
    obtain ⟨hl', hm'⟩ := (hmerge.meet _).mpr (.refl _)
    exact absurd ⟨hr.erase.trans hl', hm'⟩ (h.disjoint _)
  | .inr h => exact h

end TermSignature
