import Mathlib.Logic.Relation

-- Runs of a step relation that come to an end.
namespace Halting

open Relation (ReflTransGen)

variable {σ : Type*} {R : σ → σ → Prop} {I Trap : σ → Prop} {s t : σ}

-- No run from a state is infinite.
def Halts (R : σ → σ → Prop) (s : σ) : Prop :=
  Acc (fun t s => R s t) s

namespace Halts

theorem step (h : Halts R s) (hr : R s t) : Halts R t :=
  h.inv hr

theorem of_steps (h : ∀ {t}, R s t → Halts R t) : Halts R s :=
  ⟨s, fun _ hr => h hr⟩

theorem reaches (h : Halts R s) (hr : ReflTransGen R s t) : Halts R t := by
  induction hr with
  | refl         => exact h
  | tail _ hr ih => exact ih.step hr

-- What leads to a state of its own kind again and again does not come to an end.
theorem not_trapped (htrap : ∀ {s}, I s → Trap s → ∃ t, R s t ∧ I t ∧ Trap t) (h : Halts R s) :
    I s → ¬Trap s := by
  induction h with
  | intro s _ ih =>
    intro hi ht
    obtain ⟨t, hr, hi', ht'⟩ := htrap hi ht
    exact ih t hr hi' ht'

-- A run whose steps all descend comes to an end.
theorem of_measure (m : σ → Nat) (hinv : ∀ {s t}, I s → R s t → I t)
    (hdec : ∀ {s t}, I s → ¬Trap s → R s t → m t < m s) :
    I s → (∀ t, ReflTransGen R s t → ¬Trap t) → Halts R s := by
  induction h : m s using Nat.strongRecOn generalizing s with
  | _ n ih =>
    intro hi htrap
    refine of_steps fun {t} hr => ?_
    have hlt : m t < n := h ▸ hdec hi (htrap s .refl) hr
    exact ih (m t) hlt rfl (hinv hi hr) fun t' ht' => htrap t' (.head hr ht')

end Halts

-- If steps descend everywhere but in a trap, which is never left, then the runs that come to an end
-- are those that stay away from it.
theorem halts_iff (m : σ → Nat) (hinv : ∀ {s t}, I s → R s t → I t)
    (hdec : ∀ {s t}, I s → ¬Trap s → R s t → m t < m s)
    (htrap : ∀ {s}, I s → Trap s → ∃ t, R s t ∧ Trap t) (hi : I s) :
    Halts R s ↔ ∀ t, ReflTransGen R s t → ¬Trap t := by
  constructor
  case mpr => exact Halts.of_measure m hinv hdec hi
  case mp =>
    intro h t hr
    have hstay : ∀ {s}, I s → Trap s → ∃ t, R s t ∧ I t ∧ Trap t := by
      intro s hi ht
      obtain ⟨t, hr, ht⟩ := htrap hi ht
      exact ⟨t, hr, hinv hi hr, ht⟩
    refine (h.reaches hr).not_trapped hstay ?_
    clear h
    induction hr with
    | refl         => exact hi
    | tail _ hr ih => exact hinv ih hr

end Halting
