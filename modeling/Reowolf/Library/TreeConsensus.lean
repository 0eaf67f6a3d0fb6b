import Mathlib.Logic.Relation

-- The history of a consensus among the nodes of a tree. Every node collects solutions for each of
-- its parts, some of which are its children in the tree, and may suggest solutions to its parent. A
-- decision is a solution, or `none` for a failure.
structure ConsensusHistory (κ ι ρ : Type*) where
  Child    : κ → ι → κ → Prop
  Part     : κ → ι → Prop
  Holds    : κ → ι → ρ → Prop
  Suggests : κ → ρ → Prop
  Decides  : κ → Option ρ → Prop
  le       : ρ → ρ → Prop

namespace ConsensusHistory

variable {κ ι ρ : Type*}

-- The node has a solution below `q` for each of its parts.
def Supports (h : ConsensusHistory κ ι ρ) (k : κ) (q : ρ) : Prop :=
  ∀ i, h.Part k i → ∃ p, h.Holds k i p ∧ h.le p q

namespace Lawful

variable {h : ConsensusHistory κ ι ρ} {root k k' : κ} {d d' : Option ρ} {q : ρ}

end Lawful
end ConsensusHistory
