import Mathlib.Data.Option.Basic

theorem Except.ok_bind {ε α β : Type} {a : α} {f : α → Except ε β} : (Except.ok a >>= f) = f a := rfl

theorem Except.bind_eq_ok {ε α β : Type} {x : Except ε α} {f : α → Except ε β} {b : β} :
    x >>= f = .ok b ↔ ∃ a, x = .ok a ∧ f a = .ok b := by
  cases x <;> simp [bind, Except.bind]

theorem Except.map_eq_ok {ε α β : Type} {x : Except ε α} {f : α → β} {b : β} :
    x.map f = .ok b ↔ ∃ a, x = .ok a ∧ f a = b := by
  cases x <;> simp [Except.map]

-- A machine that visits one thing after the other. Where to go may depend on the outcome of a test.
structure Machine (σ α : Type*) where
  visit   : σ → α
  is_test : σ → Bool
  next    : σ → Bool → Option σ

namespace Machine

variable {α σ τ : Type*}

-- What a machine visits in a number of steps, with the outcomes of its tests. A state that is absent
-- is the end.
def trace (M : Machine σ α) : Nat → (Nat → Bool) → Option σ → List (α × Option Bool)
  | 0, _, _ => []
  | _ + 1, _, none => []
  | n + 1, outcomes, some s =>
    if M.is_test s then
      (M.visit s, some (outcomes 0)) :: M.trace n (outcomes ∘ Nat.succ) (M.next s (outcomes 0))
    else
      (M.visit s, none) :: M.trace n outcomes (M.next s false)

-- A visit in front of a trace.
theorem exists_trace_cons (M : Machine σ α) {s : σ} {outcome : Bool}
    {visits : List (α × Option Bool)} (hs : M.is_test s = false → M.next s outcome = M.next s false)
    (h : ∃ outcomes, visits = M.trace visits.length outcomes (M.next s outcome)) :
    ∃ outcomes, (M.visit s, if M.is_test s then some outcome else none) :: visits =
      M.trace (visits.length + 1) outcomes (some s) := by
  obtain ⟨outcomes, h⟩ := h
  cases ht : M.is_test s
  case true =>
    exists fun | 0 => outcome | n + 1 => outcomes n
    simp only [trace, ht, if_true]
    exact congrArg _ h
  case false =>
    exists outcomes
    simp only [trace, ht, Bool.false_eq_true, if_false, ← hs ht]
    exact congrArg _ h

-- A relation under which two machines visit the same and go on to related states.
structure Bisimulation (M : Machine σ α) (N : Machine τ α) (R : σ → τ → Prop) : Prop where
  visit   : ∀ {s t}, R s t → M.visit s = N.visit t
  is_test : ∀ {s t}, R s t → M.is_test s = N.is_test t
  next    : ∀ {s t}, R s t → ∀ outcome, Option.Rel R (M.next s outcome) (N.next t outcome)

variable {M : Machine σ α} {N : Machine τ α} {R : σ → τ → Prop}

theorem Bisimulation.trace_eq (h : Bisimulation M N R) (n : Nat) (outcomes : Nat → Bool)
    {s : Option σ} {t : Option τ} (hr : Option.Rel R s t) :
    M.trace n outcomes s = N.trace n outcomes t := by
  induction n generalizing outcomes s t
  case zero => simp [trace]
  case succ n ih =>
    cases hr
    case none => simp [trace]
    case some s t hr =>
      simp only [trace, h.visit hr, h.is_test hr]
      split
      · rw [ih _ (h.next hr _)]
      · rw [ih _ (h.next hr _)]

end Machine
