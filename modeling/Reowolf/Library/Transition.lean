import Mathlib.Logic.Relation

-- A labelled transition system, its runs and its invariants.
structure TransitionSystem (σ α : Type*) where
  Init : σ → Prop
  Step : σ → α → σ → Prop

namespace TransitionSystem

variable {σ α : Type*}

-- `Run T as s` means that the steps labelled `as` lead from an initial state to `s`.
inductive Run (T : TransitionSystem σ α) : List α → σ → Prop
  | init {s} : T.Init s → Run T [] s
  | step {as s a s'} : Run T as s → T.Step s a s' → Run T (as ++ [a]) s'

def Reachable (T : TransitionSystem σ α) (s : σ) : Prop :=
  ∃ as, Run T as s

-- The same system, in which every step has to meet a condition.
def restrict (T : TransitionSystem σ α) (P : σ → α → Prop) : TransitionSystem σ α where
  Init         := T.Init
  Step s a s'  := T.Step s a s' ∧ P s a

-- The same system, in which every state has to meet a condition.
def within (T : TransitionSystem σ α) (I : σ → Prop) : TransitionSystem σ α where
  Init s       := T.Init s ∧ I s
  Step s a s'  := T.Step s a s' ∧ I s'

variable {T : TransitionSystem σ α} {P : σ → α → Prop} {I J : σ → Prop} {s s' : σ} {a : α}

namespace Reachable

theorem init (h : T.Init s) : T.Reachable s :=
  ⟨[], .init h⟩

theorem step (h : T.Reachable s) (hs : T.Step s a s') : T.Reachable s' := by
  obtain ⟨as, hr⟩ := h
  exact ⟨as ++ [a], hr.step hs⟩

-- What holds initially, and is preserved by every step from a reachable state, holds of every
-- reachable state.
theorem invariant (hi : ∀ {s}, T.Init s → I s)
    (hs : ∀ {s a s'}, T.Reachable s → I s → T.Step s a s' → I s') (h : T.Reachable s) : I s := by
  obtain ⟨as, hr⟩ := h
  induction hr with
  | init h0        => exact hi h0
  | step hr hst ih => exact hs ⟨_, hr⟩ ih hst

theorem of_restrict (h : (T.restrict P).Reachable s) : T.Reachable s := by
  refine invariant (fun hi => ?_) (fun _ ih hs => ?_) h
  · exact .init hi
  · exact ih.step (And.left hs)

end Reachable

namespace Run

variable {as : List α}

theorem reachable (h : T.Run as s) : T.Reachable s :=
  ⟨as, h⟩

theorem of_within (h : (T.within I).Run as s) : I s := by
  cases h with
  | init h0    => exact h0.right
  | step _ hst => exact hst.right

-- The runs through states that meet `I` are the runs with steps that meet `P`, if these are the
-- steps after which `I` still holds.
theorem within_iff_restrict (hi : ∀ {s}, T.Init s → I s)
    (hs : ∀ {s a s'}, T.Reachable s → I s → T.Step s a s' → (I s' ↔ P s a)) :
    (T.within I).Run as s ↔ (T.restrict P).Run as s := by
  suffices h : ∀ {as s}, ((T.within I).Run as s → T.Run as s ∧ I s ∧ (T.restrict P).Run as s) ∧
      ((T.restrict P).Run as s → T.Run as s ∧ I s ∧ (T.within I).Run as s) from
    ⟨fun hr => (h.left hr).right.right, fun hr => (h.right hr).right.right⟩
  intro as s
  constructor
  case left =>
    intro hr
    induction hr with
    | init h0 => exact ⟨.init h0.left, h0.right, .init h0.left⟩
    | step _ hst ih =>
      obtain ⟨hr, hI, hP⟩ := ih
      have hp := (hs hr.reachable hI hst.left).mp hst.right
      exact ⟨hr.step hst.left, hst.right, hP.step ⟨hst.left, hp⟩⟩
  case right =>
    intro hr
    induction hr with
    | init h0 => exact ⟨.init h0, hi h0, .init ⟨h0, hi h0⟩⟩
    | step _ hst ih =>
      obtain ⟨hr, hI, hP⟩ := ih
      have hI' := (hs hr.reachable hI hst.left).mpr hst.right
      exact ⟨hr.step hst.left, hI', hP.step ⟨hst.left, hI'⟩⟩

end Run
end TransitionSystem
