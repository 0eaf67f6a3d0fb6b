import Mathlib.Algebra.Group.Nat.Defs
import Mathlib.Data.Prod.Lex

namespace Reowolf

-- Identifies a port or a component: the connector that created it, and a number drawn from one of
-- that connector's streams.
@[ext]
structure Id where
  connector_id : Nat
  u32_suffix   : Nat
deriving Repr

instance : LinearOrder Id :=
  LinearOrder.lift' (fun i => toLex (i.connector_id, i.u32_suffix)) <| by
    intro a b h
    have := Prod.mk.inj (toLex_inj.mp h)
    exact Id.ext this.left this.right

instance : LawfulBEq Id := inferInstance

abbrev ConnectorId := Nat

abbrev PortId := Id

abbrev ComponentId := Id

abbrev Payload := List UInt8

inductive Polarity
  | putter
  | getter
deriving DecidableEq, Repr

def Polarity.not : Polarity → Polarity
  | putter => getter
  | getter => putter

-- A call of the source that does not return a value returns an error, or it panics.
inductive Failure (ε : Type)
  | err (e : ε)
  | panic
deriving DecidableEq, Repr

abbrev Result (ε α : Type) :=
  Except (Failure ε) α

def unwrap {ε α : Type} : Option α → Result ε α
  | some a => .ok a
  | none   => .error .panic

def ensure {ε : Type} (b : Bool) : Result ε Unit :=
  if b then .ok () else .error .panic

namespace Result

variable {ε α β : Type} {x : Result ε α} {f : α → Result ε β} {b : β} {o : Option α} {a : α}

theorem bind_eq_ok : x >>= f = .ok b ↔ ∃ a, x = .ok a ∧ f a = .ok b := by
  cases x <;> simp [bind, Except.bind]

@[simp]
theorem unwrap_eq_ok : unwrap o = (.ok a : Result ε α) ↔ o = some a := by
  cases o <;> simp [unwrap]

@[simp]
theorem throw_ne_ok {e : Failure ε} : (throw e : Result ε α) ≠ .ok a :=
  nofun

@[simp]
theorem pure_eq_ok {a' : α} : (pure a' : Result ε α) = .ok a ↔ a' = a := by
  simp [pure, Except.pure]

end Result

-- A stream of 32-bit suffixes. The source panics rather than hand out the largest 32-bit number.
structure U32Stream where
  next_suffix : Nat
deriving DecidableEq, Repr

namespace U32Stream

def u32Max : Nat :=
  2 ^ 32 - 1

def next (s : U32Stream) : Option (Nat × U32Stream) :=
  if s.next_suffix = u32Max then none else some (s.next_suffix, ⟨s.next_suffix + 1⟩)

-- `saturating_add`
def n_skipped (s : U32Stream) (n : Nat) : U32Stream :=
  ⟨min (s.next_suffix + n) u32Max⟩

theorem next_eq_some {s s' : U32Stream} {n : Nat} (h : s.next = some (n, s')) :
    n = s.next_suffix ∧ s'.next_suffix = s.next_suffix + 1 := by
  unfold next at h
  split at h
  case isTrue  => cases h
  case isFalse => cases h; exact ⟨rfl, rfl⟩

end U32Stream
end Reowolf
