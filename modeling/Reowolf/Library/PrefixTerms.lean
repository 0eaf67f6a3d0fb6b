import Mathlib.Data.List.Basic

-- Terms that are written as the list of their parts, each part in front of its arguments.
namespace PrefixTerms

variable {α : Type*} {arity : α → Nat} {n k : Nat} {p : α} {t l m x y : List α}

-- As many terms as the number says, one behind the other.
inductive Forest (arity : α → Nat) : Nat → List α → Prop
  | nil : Forest arity 0 []
  | cons {n : Nat} {p : α} {l : List α} :
      Forest arity (n + arity p) l → Forest arity (n + 1) (p :: l)

namespace Forest

theorem append (h : Forest arity n l) (h' : Forest arity k m) : Forest arity (n + k) (l ++ m) := by
  induction h with
  | nil                  => simpa using h'
  | @cons n p l _ ih =>
    rw [Nat.add_right_comm] at ih ⊢
    exact cons ih

theorem split (h : Forest arity (n + k) l) :
    ∃ x y, l = x ++ y ∧ Forest arity n x ∧ Forest arity k y := by
  induction l generalizing n with
  | nil =>
    generalize hs : n + k = s at h
    cases h
    obtain ⟨hn, hk⟩ := Nat.add_eq_zero_iff.mp hs
    subst hn hk
    exact ⟨[], [], rfl, .nil, .nil⟩
  | cons p l ih =>
    cases n with
    | zero   => exact ⟨[], p :: l, rfl, .nil, by simpa using h⟩
    | succ n =>
      rw [Nat.add_right_comm] at h
      cases h with
      | cons h =>
        rw [Nat.add_right_comm] at h
        obtain ⟨x, y, he, hx, hy⟩ := ih h
        exact ⟨p :: x, y, by rw [he, List.cons_append], .cons hx, hy⟩

theorem unique (h : Forest arity n x) (h' : Forest arity n y) (he : x ++ l = y ++ m) :
    x = y ∧ l = m := by
  induction h generalizing y with
  | nil =>
    cases h'
    exact ⟨rfl, he⟩
  | cons h ih =>
    cases h' with
    | cons h' =>
      obtain ⟨hp, he'⟩ := List.cons.inj he
      subst hp
      obtain ⟨hx, hl⟩ := ih h' he'
      exact ⟨congrArg _ hx, hl⟩

theorem ne_nil (h : Forest arity (n + 1) l) : l ≠ [] := by
  intro he
  subst he
  cases h

theorem exists_cons (h : Forest arity (n + 1) l) :
    ∃ p m, l = p :: m ∧ Forest arity (n + arity p) m := by
  cases h with
  | cons h => exact ⟨_, _, rfl, h⟩

theorem of_cons (h : Forest arity n (p :: l)) : ∃ k, n = k + 1 ∧ Forest arity (k + arity p) l := by
  cases h with
  | cons h => exact ⟨_, rfl, h⟩

theorem cons_iff : Forest arity (n + 1) (p :: l) ↔ Forest arity (n + arity p) l := by
  constructor
  case mp =>
    intro h
    obtain ⟨k, hk, h⟩ := h.of_cons
    exact Nat.succ.inj hk ▸ h
  case mpr => exact cons

theorem nil_iff : Forest arity n ([] : List α) ↔ n = 0 :=
  ⟨fun h => by cases h; rfl, fun h => h ▸ nil⟩

theorem singleton (h : arity p = 0) : Forest arity 1 [p] := by
  apply cons
  rw [h]
  exact nil

theorem replicate_append_iff {k : Nat} (h : arity p = 0) :
    Forest arity (n + k) (List.replicate k p ++ l) ↔ Forest arity n l := by
  induction k with
  | zero => exact Iff.rfl
  | succ k ih =>
    rw [List.replicate_succ, List.cons_append, ← Nat.add_assoc, cons_iff, h]
    exact ih

theorem map_iff {β : Type} {f : β → α} {l : List β} :
    Forest arity n (l.map f) ↔ Forest (fun b => arity (f b)) n l := by
  induction l generalizing n with
  | nil => exact nil_iff.trans nil_iff.symm
  | cons b l ih =>
    cases n with
    | zero => exact ⟨nofun, nofun⟩
    | succ n => exact cons_iff.trans (ih.trans cons_iff.symm)

-- Behind a term in front of a forest are the other terms.
theorem of_append (h : Forest arity (n + 1) (t ++ l)) (ht : Forest arity 1 t) : Forest arity n l := by
  rw [Nat.add_comm] at h
  obtain ⟨x, y, he, hx, hy⟩ := h.split
  obtain ⟨_, he⟩ := ht.unique hx he
  exact he ▸ hy

-- A term starts at every part of a forest.
theorem exists_subtree (h : Forest arity n (x ++ y)) (hy : y ≠ []) :
    ∃ t z, y = t ++ z ∧ Forest arity 1 t := by
  induction x generalizing n with
  | nil =>
    cases n with
    | zero =>
      cases h
      exact absurd rfl hy
    | succ n =>
      rw [Nat.add_comm] at h
      obtain ⟨t, z, he, ht, _⟩ := h.split
      exact ⟨t, z, he, ht⟩
  | cons p x ih =>
    obtain ⟨_, _, h⟩ := h.of_cons
    exact ih h

end Forest
end PrefixTerms

-- Some parts stand for several others: a hole stands for any term, and a part that narrows to others
-- stands for these. Markers annotate the term behind them.
structure TermSignature (α : Type*) where
  arity   : α → Nat
  hole    : α
  marker  : α → Bool
  narrows : α → α → Prop
  ground  : α → Prop
  arity_hole          : arity hole = 0
  arity_marker        : ∀ {p}, marker p = true → arity p = 1
  arity_narrows       : ∀ {p q}, narrows p q → arity p = arity q
  hole_unmarked       : marker hole = false
  narrows_unmarked    : ∀ {p q}, narrows p q → marker p = false ∧ marker q = false
  narrows_filled      : ∀ {p q}, narrows p q → p ≠ hole ∧ q ≠ hole
  narrows_trans       : ∀ {p q r}, narrows p q → narrows q r → narrows p r
  narrows_irrefl      : ∀ {p}, ¬narrows p p
  -- what stands for a common part stands for one another
  narrows_nested      : ∀ {p q r}, narrows p r → narrows q r → p = q ∨ narrows p q ∨ narrows q p
  exists_ground       : ∀ {p}, p ≠ hole → ground p ∨ ∃ q, narrows p q ∧ ground q
  exists_ground_const : ∃ p, arity p = 0 ∧ ground p ∧ marker p = false

namespace TermSignature

variable {α : Type*} (S : TermSignature α)

abbrev Forest (n : Nat) (l : List α) : Prop :=
  PrefixTerms.Forest S.arity n l

def Unmarked (l : List α) : Prop :=
  ∀ p ∈ l, S.marker p = false

instance (l : List α) : Decidable (S.Unmarked l) :=
  inferInstanceAs (Decidable (∀ p ∈ l, S.marker p = false))

def erase (l : List α) : List α :=
  l.filter fun p => !S.marker p

-- Parts are narrowed and holes are filled, and markers remain where they are.
inductive Refines : List α → List α → Prop
  | nil : Refines [] []
  | same {p : α} {l m : List α} : Refines l m → Refines (p :: l) (p :: m)
  | narrow {p q : α} {l m : List α} : S.narrows p q → Refines l m → Refines (p :: l) (q :: m)
  | fill {t l m : List α} : S.Forest 1 t → S.Unmarked t → Refines l m →
      Refines (S.hole :: l) (t ++ m)

-- What refines both refines the meet, and the other way around.
def IsMeet (l m r : List α) : Prop :=
  ∀ c, S.Refines l c ∧ S.Refines m c ↔ S.Refines r c

-- A common refinement that all others refine.
def MostGeneral (l m r : List α) : Prop :=
  S.Refines l r ∧ S.Refines m r ∧ ∀ c, S.Refines l c → S.Refines m c → S.Refines r c

-- An instance of both in which all parts are ground.
def HaveInstance (l m : List α) : Prop :=
  ∃ c, S.Refines l c ∧ S.Refines m c ∧ ∀ p ∈ c, S.ground p

def Disjoint (l m : List α) : Prop :=
  ∀ c, ¬(S.Refines l c ∧ S.Refines m c)

-- The same for any number of lists.
def MostGeneralOf (ls : List (List α)) (r : List α) : Prop :=
  (∀ l ∈ ls, S.Refines l r) ∧ ∀ c, (∀ l ∈ ls, S.Refines l c) → S.Refines r c

def HaveInstanceOf (ls : List (List α)) : Prop :=
  ∃ c, (∀ l ∈ ls, S.Refines l c) ∧ ∀ p ∈ c, S.ground p

variable {S} {n k : Nat} {p q : α} {t l m r c l₁ l₂ m₁ m₂ x y z : List α}

namespace Forest

theorem of_marker (h : S.Forest n (p :: l)) (hp : S.marker p = true) : S.Forest n l := by
  obtain ⟨k, hn, h⟩ := h.of_cons
  rwa [S.arity_marker hp, ← hn] at h

theorem of_hole (h : S.Forest (n + 1) (S.hole :: l)) : S.Forest n l :=
  h.of_append (.singleton S.arity_hole)

-- A term that is a hole or starts with one is just the hole.
theorem eq_hole (h : S.Forest 1 (S.hole :: l)) : l = [] := by
  cases h with
  | cons h =>
    rw [S.arity_hole] at h
    cases h
    rfl

theorem erase (h : S.Forest n l) : S.Forest n (S.erase l) := by
  induction h with
  | nil              => exact .nil
  | @cons n p l _ ih =>
    cases hp : S.marker p with
    | true =>
      rw [S.arity_marker hp] at ih
      simpa [TermSignature.erase, hp] using ih
    | false =>
      have : S.erase (p :: l) = p :: S.erase l := by simp [TermSignature.erase, hp]
      rw [this]
      exact .cons ih

end Forest

namespace Unmarked

theorem append : S.Unmarked (l ++ m) ↔ S.Unmarked l ∧ S.Unmarked m := by
  simp only [Unmarked, List.mem_append]
  exact ⟨fun h => ⟨fun p hp => h p (.inl hp), fun p hp => h p (.inr hp)⟩,
    fun h p hp => hp.elim (h.1 p) (h.2 p)⟩

theorem cons : S.Unmarked (p :: l) ↔ S.marker p = false ∧ S.Unmarked l := by
  simp [Unmarked]

theorem erase_eq (h : S.Unmarked l) : S.erase l = l := by
  apply List.filter_eq_self.mpr
  intro p hp
  simp [h p hp]

end Unmarked

@[simp]
theorem erase_nil : S.erase [] = [] :=
  rfl

@[simp]
theorem erase_append : S.erase (l ++ m) = S.erase l ++ S.erase m :=
  List.filter_append ..

theorem erase_cons_marker (h : S.marker p = true) : S.erase (p :: l) = S.erase l := by
  simp [erase, h]

theorem erase_cons_unmarked (h : S.marker p = false) : S.erase (p :: l) = p :: S.erase l := by
  simp [erase, h]

theorem erase_unmarked : S.Unmarked (S.erase l) := by
  intro p hp
  simpa using (List.mem_filter.mp hp).right

namespace Refines

theorem refl (l : List α) : S.Refines l l := by
  induction l with
  | nil         => exact nil
  | cons p l ih => exact same ih

theorem append (h : S.Refines l l₁) (h' : S.Refines m m₁) : S.Refines (l ++ m) (l₁ ++ m₁) := by
  induction h with
  | nil            => exact h'
  | same _ ih      => exact same ih
  | narrow hn _ ih => exact narrow hn ih
  | fill ht hu _ ih =>
    rw [List.append_assoc]
    exact fill ht hu ih

theorem append_iff :
    S.Refines (l ++ m) c ↔ ∃ l₁ m₁, c = l₁ ++ m₁ ∧ S.Refines l l₁ ∧ S.Refines m m₁ := by
  constructor
  case mpr =>
    rintro ⟨l₁, m₁, hc, hl, hm⟩
    exact hc ▸ hl.append hm
  case mp =>
    intro h
    induction l generalizing c with
    | nil         => exact ⟨[], c, rfl, nil, h⟩
    | cons p l ih =>
      cases h with
      | same h =>
        obtain ⟨l₁, m₁, hc, hl, hm⟩ := ih h
        exact ⟨p :: l₁, m₁, by rw [hc, List.cons_append], same hl, hm⟩
      | narrow hn h =>
        obtain ⟨l₁, m₁, hc, hl, hm⟩ := ih h
        exact ⟨_ :: l₁, m₁, by rw [hc, List.cons_append], narrow hn hl, hm⟩
      | fill ht hu h =>
        obtain ⟨l₁, m₁, hc, hl, hm⟩ := ih h
        exact ⟨_ ++ l₁, m₁, by rw [hc, List.append_assoc], fill ht hu hl, hm⟩

-- A part that is no hole is kept or narrowed.
theorem cons_iff (hp : p ≠ S.hole) :
    S.Refines (p :: l) c ↔ ∃ q m, c = q :: m ∧ (p = q ∨ S.narrows p q) ∧ S.Refines l m := by
  constructor
  case mp =>
    intro h
    cases h with
    | same h      => exact ⟨p, _, rfl, .inl rfl, h⟩
    | narrow hn h => exact ⟨_, _, rfl, .inr hn, h⟩
    | fill        => exact absurd rfl hp
  case mpr =>
    rintro ⟨q, m, hc, hpq, h⟩
    subst hc
    cases hpq
    case inl he => exact he ▸ same h
    case inr hn => exact narrow hn h

theorem hole_iff : S.Refines (S.hole :: l) c ↔
    ∃ t m, c = t ++ m ∧ S.Forest 1 t ∧ S.Unmarked t ∧ S.Refines l m := by
  constructor
  case mp =>
    intro h
    cases h with
    | same h =>
      exact ⟨[S.hole], _, rfl, .singleton S.arity_hole, by simp [Unmarked, S.hole_unmarked], h⟩
    | narrow hn         => exact absurd rfl (S.narrows_filled hn).left
    | fill ht hu h => exact ⟨_, _, rfl, ht, hu, h⟩
  case mpr =>
    rintro ⟨t, m, hc, ht, hu, h⟩
    exact hc ▸ fill ht hu h

theorem unmarked (h : S.Refines l m) (hu : S.Unmarked l) : S.Unmarked m := by
  induction h with
  | nil => exact hu
  | same _ ih =>
    obtain ⟨hp, hu⟩ := Unmarked.cons.mp hu
    exact Unmarked.cons.mpr ⟨hp, ih hu⟩
  | narrow hn _ ih =>
    obtain ⟨_, hu⟩ := Unmarked.cons.mp hu
    exact Unmarked.cons.mpr ⟨(S.narrows_unmarked hn).right, ih hu⟩
  | fill _ ht _ ih =>
    obtain ⟨_, hu⟩ := Unmarked.cons.mp hu
    exact Unmarked.append.mpr ⟨ht, ih hu⟩

theorem forest (h : S.Refines l m) (hf : S.Forest n l) : S.Forest n m := by
  induction h generalizing n with
  | nil => exact hf
  | same _ ih =>
    obtain ⟨k, hk, hf⟩ := hf.of_cons
    exact hk ▸ .cons (ih hf)
  | narrow hn _ ih =>
    obtain ⟨k, hk, hf⟩ := hf.of_cons
    exact hk ▸ .cons (ih (S.arity_narrows hn ▸ hf))
  | fill ht _ _ ih =>
    obtain ⟨k, hk, hf⟩ := hf.of_cons
    rw [S.arity_hole, Nat.add_zero] at hf
    rw [hk, Nat.add_comm]
    exact ht.append (ih hf)

theorem trans (h : S.Refines l m) (h' : S.Refines m c) : S.Refines l c := by
  induction h generalizing c with
  | nil => exact h'
  | @same p l m _ ih =>
    cases h' with
    | same h'       => exact same (ih h')
    | narrow hn h'  => exact narrow hn (ih h')
    | fill ht hu h' => exact fill ht hu (ih h')
  | narrow hn _ ih =>
    obtain ⟨_, _, hc, hq, hm⟩ := (cons_iff (S.narrows_filled hn).right).mp h'
    subst hc
    cases hq
    case inl he  => exact he ▸ narrow hn (ih hm)
    case inr hn' => exact narrow (S.narrows_trans hn hn') (ih hm)
  | fill ht hu _ ih =>
    obtain ⟨t', m', hc, ht', hm⟩ := append_iff.mp h'
    subst hc
    exact fill (ht'.forest ht) (ht'.unmarked hu) (ih hm)

theorem erase (h : S.Refines l m) : S.Refines (S.erase l) (S.erase m) := by
  induction h with
  | nil => exact nil
  | @same p l m _ ih =>
    cases hp : S.marker p with
    | true  => rwa [erase_cons_marker hp, erase_cons_marker hp]
    | false =>
      rw [erase_cons_unmarked hp, erase_cons_unmarked hp]
      exact same ih
  | narrow hn _ ih =>
    obtain ⟨hp, hq⟩ := S.narrows_unmarked hn
    rw [erase_cons_unmarked hp, erase_cons_unmarked hq]
    exact narrow hn ih
  | fill ht hu _ ih =>
    rw [erase_cons_unmarked S.hole_unmarked, erase_append, hu.erase_eq]
    exact fill ht hu ih

-- What fills a hole and is the hole again leaves everything as it is.
theorem eq_of_erase_eq (h : S.Refines l m) (he : S.erase l = S.erase m) : l = m := by
  induction h with
  | nil => rfl
  | @same p l m _ ih =>
    cases hp : S.marker p with
    | true =>
      rw [erase_cons_marker hp, erase_cons_marker hp] at he
      rw [ih he]
    | false =>
      rw [erase_cons_unmarked hp, erase_cons_unmarked hp] at he
      rw [ih (List.cons.inj he).right]
  | narrow hn _ ih =>
    obtain ⟨hp, hq⟩ := S.narrows_unmarked hn
    rw [erase_cons_unmarked hp, erase_cons_unmarked hq] at he
    exact absurd ((List.cons.inj he).left ▸ hn) S.narrows_irrefl
  | fill ht hu _ ih =>
    rw [erase_cons_unmarked S.hole_unmarked, erase_append, hu.erase_eq] at he
    obtain ⟨q, t, ht', _⟩ := ht.exists_cons
    subst ht'
    obtain ⟨hq, he'⟩ := List.cons.inj he
    subst hq
    cases ht.eq_hole
    rw [ih he']
    rfl

theorem of_cons (h : S.Refines (p :: l) (p :: m)) : S.Refines l m := by
  by_cases hp : p = S.hole
  case pos =>
    subst hp
    obtain ⟨t, m', he, ht, _, h⟩ := hole_iff.mp h
    obtain ⟨q, t', ht', _⟩ := ht.exists_cons
    subst ht'
    obtain ⟨hq, he'⟩ := List.cons.inj he
    subst hq
    cases ht.eq_hole
    exact he' ▸ h
  case neg =>
    obtain ⟨_, _, he, _, h⟩ := (cons_iff hp).mp h
    exact (List.cons.inj he).right ▸ h

theorem antisymm (h : S.Refines l m) (h' : S.Refines m l) : l = m := by
  induction h with
  | nil => rfl
  | same _ ih => rw [ih h'.of_cons]
  | narrow hn _ _ =>
    obtain ⟨_, _, he, hq, _⟩ := (cons_iff (S.narrows_filled hn).right).mp h'
    rw [← (List.cons.inj he).left] at hq
    cases hq
    case inl hq => exact absurd (hq ▸ hn) S.narrows_irrefl
    case inr hq => exact absurd (S.narrows_trans hn hq) S.narrows_irrefl
  | fill ht _ _ ih =>
    obtain ⟨q, t, ht', _⟩ := ht.exists_cons
    subst ht'
    by_cases hq : q = S.hole
    case pos =>
      subst hq
      cases ht.eq_hole
      rw [ih h'.of_cons]
      rfl
    case neg =>
      obtain ⟨_, _, he, hq', _⟩ := (cons_iff hq).mp h'
      rw [← (List.cons.inj he).left] at hq'
      cases hq'
      case inl hq' => exact absurd hq' hq
      case inr hq' => exact absurd rfl (S.narrows_filled hq').right

-- What changes in one of two steps has changed.
theorem ne_iff (h : S.Refines l m) (h' : S.Refines m r) : m ≠ l ∨ r ≠ m ↔ r ≠ l := by
  constructor
  case mp =>
    intro hne he
    have hm : m = l := (he ▸ h').antisymm h
    cases hne
    case inl hne => exact hne hm
    case inr hne => exact hne (he.trans hm.symm)
  case mpr =>
    intro hne
    by_cases hm : m = l
    case pos => exact .inr (hm ▸ hne)
    case neg => exact .inl hm

-- Every list of parts has an instance in which all parts are ground.
theorem exists_ground (hu : S.Unmarked l) : ∃ c, S.Refines l c ∧ ∀ p ∈ c, S.ground p := by
  induction l with
  | nil => exact ⟨[], nil, nofun⟩
  | cons p l ih =>
    obtain ⟨_, hu⟩ := Unmarked.cons.mp hu
    obtain ⟨c, hr, hg⟩ := ih hu
    by_cases hp : p = S.hole
    case pos =>
      obtain ⟨q, hq, hq', hm⟩ := S.exists_ground_const
      refine ⟨q :: c, ?_, List.forall_mem_cons.mpr ⟨hq', hg⟩⟩
      exact hp ▸ fill (.singleton hq) (by simpa [Unmarked] using hm) hr
    case neg =>
      cases S.exists_ground hp
      case inl hp => exact ⟨p :: c, same hr, List.forall_mem_cons.mpr ⟨hp, hg⟩⟩
      case inr hq =>
        obtain ⟨q, hn, hq⟩ := hq
        exact ⟨q :: c, narrow hn hr, List.forall_mem_cons.mpr ⟨hq, hg⟩⟩

end Refines

namespace IsMeet

theorem mostGeneral (h : S.IsMeet l m r) : S.MostGeneral l m r := by
  obtain ⟨hl, hm⟩ := (h r).mpr (.refl r)
  exact ⟨hl, hm, fun c hl hm => (h c).mp ⟨hl, hm⟩⟩

theorem haveInstance (h : S.IsMeet l m r) (hu : S.Unmarked r) : S.HaveInstance l m := by
  obtain ⟨c, hr, hg⟩ := Refines.exists_ground hu
  obtain ⟨hl, hm⟩ := (h c).mpr hr
  exact ⟨c, hl, hm, hg⟩

end IsMeet

theorem MostGeneral.isMeet (h : S.MostGeneral l m r) : S.IsMeet l m r :=
  fun c => ⟨fun hc => h.right.right c hc.left hc.right,
    fun hc => ⟨h.left.trans hc, h.right.left.trans hc⟩⟩

namespace MostGeneralOf

variable {ls : List (List α)}

theorem singleton (l : List α) : S.MostGeneralOf [l] l := by
  constructor
  case left =>
    intro m hm
    rw [List.mem_singleton.mp hm]
    exact .refl l
  case right => exact fun c hc => hc l (.head _)

theorem iff (h : S.MostGeneralOf ls r) : (∀ l ∈ ls, S.Refines l c) ↔ S.Refines r c :=
  ⟨h.right c, fun hc l hl => (h.left l hl).trans hc⟩

-- One more list is taken in by the meet with it.
theorem append (h : S.MostGeneralOf ls l) (hm : S.IsMeet l m r) : S.MostGeneralOf (ls ++ [m]) r := by
  have hr := (hm r).mpr (.refl r)
  constructor
  case left =>
    intro l' hl'
    cases List.mem_append.mp hl'
    case inl hl' => exact (h.left l' hl').trans hr.left
    case inr hl' => exact List.mem_singleton.mp hl' ▸ hr.right
  case right =>
    intro c hc
    refine (hm c).mp ⟨h.right c fun l' hl' => ?_, ?_⟩
    · exact hc l' (List.mem_append_left _ hl')
    · exact hc m (List.mem_append_right _ (.head _))

theorem haveInstance (h : S.MostGeneralOf ls r) (hu : S.Unmarked r) : S.HaveInstanceOf ls := by
  obtain ⟨c, hr, hg⟩ := Refines.exists_ground hu
  exact ⟨c, h.iff.mpr hr, hg⟩

theorem unique (h : S.MostGeneralOf ls r) (h' : S.MostGeneralOf ls m) : r = m :=
  (h.right m h'.left).antisymm (h'.right r h.left)

end MostGeneralOf

theorem HaveInstanceOf.mono {ls ls' : List (List α)} (h : S.HaveInstanceOf ls)
    (hm : ∀ l ∈ ls', l ∈ ls) : S.HaveInstanceOf ls' := by
  obtain ⟨c, hc, hg⟩ := h
  exact ⟨c, fun l hl => hc l (hm l hl), hg⟩

theorem Disjoint.not_haveInstance (h : S.Disjoint l m) : ¬S.HaveInstance l m := by
  rintro ⟨c, hl, hm, _⟩
  exact h c ⟨hl, hm⟩

end TermSignature
