import Mathlib.Order.WellFounded
import Reowolf.Library.Machine

-- Constraint propagation. A state says something about the solutions that are looked for, and what it
-- says is only ever refined. A step fails with a conflict, or it stops for some other reason.
structure Propagation (σ τ : Type*) (ε : Type) where
  Valid    : σ → Prop
  Refines  : σ → σ → Prop
  Admits   : σ → τ → Prop
  Conflict : ε → Prop
  Stops    : ε → Prop
  refl     : ∀ s, Refines s s
  trans    : ∀ {s₁ s₂ s₃}, Refines s₁ s₂ → Refines s₂ s₃ → Refines s₁ s₃

namespace Propagation

variable {τ ι : Type*} {σ ε α β : Type} {P : Propagation σ τ ε} {Sol Sol' : τ → Prop}
variable {s s₁ s₂ s₃ : σ}

-- The state refines another one and loses no solution.
structure Narrows (P : Propagation σ τ ε) (Sol : τ → Prop) (s s' : σ) : Prop where
  valid   : P.Valid s'
  refines : P.Refines s s'
  admits  : ∀ t, Sol t → P.Admits s t → P.Admits s' t

namespace Narrows

theorem refl (h : P.Valid s) : P.Narrows Sol s s where
  valid   := h
  refines := P.refl s
  admits  := fun _ _ h => h

theorem trans (h : P.Narrows Sol s₁ s₂) (h' : P.Narrows Sol s₂ s₃) : P.Narrows Sol s₁ s₃ where
  valid         := h'.valid
  refines       := P.trans h.refines h'.refines
  admits t ht h₀ := h'.admits t ht (h.admits t ht h₀)

theorem mono (h : P.Narrows Sol s₁ s₂) (hs : ∀ t, Sol' t → P.Admits s₁ t → Sol t) :
    P.Narrows Sol' s₁ s₂ where
  valid          := h.valid
  refines        := h.refines
  admits t ht ha := h.admits t (hs t ht ha) ha

end Narrows

-- The state says more than the other one.
def Progresses (P : Propagation σ τ ε) (s s' : σ) : Prop :=
  ¬P.Refines s' s

theorem Progresses.mono {s₀ : σ} (h : P.Progresses s₁ s₂) (hl : P.Refines s₀ s₁)
    (hr : P.Refines s₂ s₃) : P.Progresses s₀ s₃ :=
  fun hn => h (P.trans (P.trans hr hn) hl)

-- What a step comes to, with the state that is in its result and a fact about that result. There is only
-- a conflict if the state admits none of the solutions.
inductive Outcome (P : Propagation σ τ ε) (Sol : τ → Prop) (state : α → σ) (Post : α → Prop) (s : σ) :
    Except ε α → Prop
  | ok {a : α} (h : P.Narrows Sol s (state a)) (hp : Post a) : Outcome P Sol state Post s (.ok a)
  | conflict {e : ε} (he : P.Conflict e) (hn : ∀ t, Sol t → ¬P.Admits s t) :
    Outcome P Sol state Post s (.error e)
  | stop {e : ε} (he : P.Stops e) : Outcome P Sol state Post s (.error e)

namespace Outcome

variable {state : α → σ} {state' : β → σ} {Post Post₁ : α → Prop} {Post' : β → Prop}
variable {x : Except ε α} {f : α → Except ε β}

theorem mono (h : P.Outcome Sol state Post s x) (hs : ∀ t, Sol' t → P.Admits s t → Sol t)
    (hp : ∀ a, P.Narrows Sol s (state a) → Post a → Post₁ a) : P.Outcome Sol' state Post₁ s x := by
  cases h with
  | ok h hpost     => exact .ok (h.mono hs) (hp _ h hpost)
  | conflict he hn => exact .conflict he fun t ht ha => hn t (hs t ht ha) ha
  | stop he        => exact .stop he

theorem after (hn : P.Narrows Sol s s₁) (h : P.Outcome Sol state Post s₁ x) :
    P.Outcome Sol state Post s x := by
  cases h with
  | ok h hp        => exact .ok (hn.trans h) hp
  | conflict he hc => exact .conflict he fun t ht hadmits => hc t ht (hn.admits t ht hadmits)
  | stop he        => exact .stop he

-- One step after the other, where the solutions are solutions for the first step as well.
theorem bind (h : P.Outcome Sol' state Post s x) (hs : ∀ t, Sol t → P.Admits s t → Sol' t)
    (hf : ∀ a, P.Narrows Sol s (state a) → Post a → P.Outcome Sol state' Post' (state a) (f a)) :
    P.Outcome Sol state' Post' s (x >>= f) := by
  cases h with
  | conflict he hn => exact .conflict he fun t ht ha => hn t (hs t ht ha) ha
  | stop he        => exact .stop he
  | ok h hp        => exact .after (h.mono hs) (hf _ (h.mono hs) hp)

end Outcome

-- A step for each of the constraints that there are, and what it does.
def Propagates (P : Propagation σ τ ε) (Sol : τ → Prop) (Exists : ι → Prop) (Does : σ → σ → Prop)
    (step : ι → σ → Except ε σ) : Prop :=
  ∀ i s, Exists i → P.Valid s → P.Outcome Sol id (Does s) s (step i s)

-- The constraints may be taken in any order, and any number of times.
theorem Propagates.run {step : ι → σ → Except ε σ} {Exists : ι → Prop} {Does : σ → σ → Prop}
    (h : P.Propagates Sol Exists Does step) (hs : P.Valid s) {is : List ι} (hi : ∀ i ∈ is, Exists i) :
    P.Outcome Sol id (fun _ => True) s (is.foldlM (fun s i => step i s) s) := by
  induction is generalizing s with
  | nil => exact .ok (.refl hs) trivial
  | cons i is ih =>
    obtain ⟨hi, his⟩ := List.forall_mem_cons.mp hi
    rw [List.foldlM_cons]
    exact (h i s hi hs).bind (fun _ ht _ => ht) fun s' hn _ => ih hn.valid his

-- The constraints in a queue are taken one after the other until it is empty.
def drain (pop : σ → Option (ι × σ)) (step : ι → σ → Except ε σ) : (fuel : Nat) → σ → Option (Except ε σ)
  | 0, _ => none
  | fuel + 1, s =>
    match pop s with
    | none        => some (.ok s)
    | some (i, s) =>
      match step i s with
      | .ok s    => drain pop step fuel s
      | .error e => some (.error e)

section Drain

variable {pop : σ → Option (ι × σ)} {step : ι → σ → Except ε σ} {fuel : Nat} {r : Except ε σ}
variable {Exists : ι → Prop} {Does : σ → σ → Prop}

-- The constraints in the queue are some of those that there are, and taking one changes nothing else.
def Queues (P : Propagation σ τ ε) (Sol : τ → Prop) (Exists : ι → Prop) (pop : σ → Option (ι × σ)) :
    Prop :=
  ∀ s i s', P.Valid s → pop s = some (i, s') → Exists i ∧ P.Narrows Sol s s'

theorem Propagates.drain (h : P.Propagates Sol Exists Does step) (hpop : P.Queues Sol Exists pop)
    (hs : P.Valid s) (hr : drain pop step fuel s = some r) :
    P.Outcome Sol id (fun s' => pop s' = none) s r := by
  induction fuel generalizing s with
  | zero => cases hr
  | succ fuel ih =>
    rw [Propagation.drain] at hr
    cases hp : pop s with
    | none =>
      rw [hp] at hr
      cases hr
      exact .ok (.refl hs) hp
    | some next =>
      obtain ⟨i, s'⟩ := next
      simp only [hp] at hr
      obtain ⟨hi, hn⟩ := hpop s i s' hs hp
      refine .after hn ?_
      have hstep := h i s' hi hn.valid
      generalize step i s' = y at hstep hr
      cases hstep with
      | ok h' _ => exact .after h' (ih h'.valid hr)
      | conflict he hc =>
        cases hr
        exact .conflict he hc
      | stop he =>
        cases hr
        exact .stop he

-- The queue is emptied, or there is a failure, if every round descends.
theorem drain_halts {R : σ → σ → Prop} (hwf : WellFounded R) {I : σ → Prop}
    (hstep : ∀ {s i s' s''}, I s → pop s = some (i, s') → step i s' = .ok s'' → I s'' ∧ R s'' s)
    (hs : I s) : ∃ fuel r, Propagation.drain pop step fuel s = some r := by
  induction s using hwf.induction with
  | _ s ih =>
    cases hp : pop s with
    | none => exact ⟨1, .ok s, by simp [Propagation.drain, hp]⟩
    | some next =>
      obtain ⟨i, s'⟩ := next
      cases he : step i s' with
      | error e => exact ⟨1, .error e, by simp [Propagation.drain, hp, he]⟩
      | ok s'' =>
        obtain ⟨hi, hr⟩ := hstep hs hp he
        obtain ⟨fuel, r, hrun⟩ := ih s'' hr hi
        exact ⟨fuel + 1, r, by simp [Propagation.drain, hp, he, hrun]⟩

-- A rank for the states, which is bounded while a solution is admitted. It rises with progress, and without
-- progress the queue does not become longer.
structure Ranked (P : Propagation σ τ ε) (t : τ) (Does : σ → σ → Prop) (pop : σ → Option (ι × σ))
    (rank size : σ → Nat) (bound : Nat) : Prop where
  bounded : ∀ s, P.Valid s → P.Admits s t → rank s ≤ bound
  rises   : ∀ s s', P.Valid s → P.Valid s' → P.Refines s s' →
    rank s ≤ rank s' ∧ (P.Progresses s s' → rank s < rank s')
  pops    : ∀ s i s', pop s = some (i, s') → rank s' = rank s ∧ size s' < size s
  does    : ∀ s s', Does s s' → P.Progresses s s' ∨ size s' ≤ size s

-- If there is a solution then the queue is emptied, or there is a failure.
theorem Propagates.halts {t : τ} {rank size : σ → Nat} {bound : Nat}
    (h : P.Propagates Sol Exists Does step) (hpop : P.Queues Sol Exists pop)
    (hr : P.Ranked t Does pop rank size bound) (ht : Sol t) (hs : P.Valid s) (ha : P.Admits s t) :
    ∃ fuel r, Propagation.drain pop step fuel s = some r := by
  refine drain_halts (I := fun s => P.Valid s ∧ P.Admits s t)
    (InvImage.wf (fun s => (bound - rank s, size s)) (Prod.lex Nat.lt_wfRel Nat.lt_wfRel).wf) ?_ ⟨hs, ha⟩
  intro s i s' s'' hi hp he
  obtain ⟨hs, ha⟩ := hi
  obtain ⟨hexists, hn⟩ := hpop s i s' hs hp
  obtain ⟨hrank, hsize⟩ := hr.pops s i s' hp
  have hstep := h i s' hexists hn.valid
  rw [he] at hstep
  cases hstep with
  | ok hn' hdoes =>
    have ha'' := hn'.admits t ht (hn.admits t ht ha)
    refine ⟨⟨hn'.valid, ha''⟩, ?_⟩
    have hbound := hr.bounded s'' hn'.valid ha''
    by_cases hprogress : P.Progresses s' s''
    case pos =>
      have hlt := (hr.rises s' s'' hn.valid hn'.valid hn'.refines).right hprogress
      refine Prod.Lex.left _ _ ?_
      show bound - rank s'' < bound - rank s
      omega
    case neg =>
      have hle := (hr.rises s' s'' hn.valid hn'.valid hn'.refines).left
      have hge := (hr.rises s'' s' hn'.valid hn.valid (not_not.mp hprogress)).left
      have hlen := (hr.does s' s'' hdoes).resolve_left hprogress
      have heq : bound - rank s'' = bound - rank s := by omega
      show Prod.Lex _ _ (bound - rank s'', size s'') (bound - rank s, size s)
      rw [heq]
      exact Prod.Lex.right _ (Nat.lt_of_le_of_lt hlen hsize)

end Drain
end Propagation
