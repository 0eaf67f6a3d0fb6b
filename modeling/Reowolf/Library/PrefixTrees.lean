import Reowolf.Library.PrefixTerms

namespace PrefixTerms

-- The tree that is written as its parts.
inductive Term (α : Type*)
  | node (part : α) (args : List (Term α))

namespace Term

variable {α β : Type*} {arity : α → Nat} {arity' : β → Nat} {n i : Nat} {t s : Term α}
  {ts us : List (Term α)}

def root : Term α → α
  | node part _ => part

def args : Term α → List (Term α)
  | node _ args => args

theorem arg_induction {motive : Term α → Prop}
    (node : ∀ part args, (∀ t ∈ args, motive t) → motive (node part args)) (t : Term α) :
    motive t :=
  Term.rec (motive_1 := motive) (motive_2 := fun ts => ∀ t ∈ ts, motive t) node nofun
    (fun _ _ ht hts => List.forall_mem_cons.mpr ⟨ht, hts⟩) t

mutual

def parts : Term α → List α
  | node part args => part :: listParts args

def listParts : List (Term α) → List α
  | []      => []
  | t :: ts => t.parts ++ listParts ts

end

-- All terms within a term, each where its first part is written.
mutual

def subterms : Term α → List (Term α)
  | node part args => node part args :: listSubterms args

def listSubterms : List (Term α) → List (Term α)
  | []      => []
  | t :: ts => t.subterms ++ listSubterms ts

end

-- Parts are replaced one by one, or by a term. There is no result if a part has no replacement.
mutual

def subst (f : α → Option (β ⊕ Term β)) : Term α → Option (Term β)
  | node part args =>
    match f part with
    | some (.inl part) => (listSubst f args).map (node part)
    | some (.inr t)    => some t
    | none             => none

def listSubst (f : α → Option (β ⊕ Term β)) : List (Term α) → Option (List (Term β))
  | []      => some []
  | t :: ts => do
    let t ← t.subst f
    let ts ← listSubst f ts
    return t :: ts

end

-- All parts have as many arguments as they need.
inductive Formed (arity : α → Nat) : Term α → Prop
  | node {part : α} {args : List (Term α)} :
      args.length = arity part → (∀ t ∈ args, Formed arity t) → Formed arity (node part args)

-- The same replacement part by part.
def substParts (f : α → Option (β ⊕ Term β)) : List α → Option (List β)
  | [] => some []
  | part :: l =>
    match f part with
    | some (.inl part) => (substParts f l).map (part :: ·)
    | some (.inr t)    => (substParts f l).map (t.parts ++ ·)
    | none             => none

@[simp]
theorem parts_node (part : α) (args : List (Term α)) :
    (node part args).parts = part :: listParts args :=
  rfl

@[simp]
theorem listParts_nil : listParts ([] : List (Term α)) = [] :=
  rfl

@[simp]
theorem listParts_cons (t : Term α) (ts : List (Term α)) :
    listParts (t :: ts) = t.parts ++ listParts ts :=
  rfl

@[simp]
theorem listParts_append (ts us : List (Term α)) :
    listParts (ts ++ us) = listParts ts ++ listParts us := by
  induction ts with
  | nil            => simp
  | cons t ts ih => simp [ih]

theorem listParts_eq_flatten (ts : List (Term α)) : listParts ts = (ts.map parts).flatten := by
  induction ts with
  | nil            => simp
  | cons t ts ih => simp [ih]

@[simp]
theorem subterms_node (part : α) (args : List (Term α)) :
    (node part args).subterms = node part args :: listSubterms args :=
  rfl

@[simp]
theorem listSubterms_nil : listSubterms ([] : List (Term α)) = [] :=
  rfl

@[simp]
theorem listSubterms_cons (t : Term α) (ts : List (Term α)) :
    listSubterms (t :: ts) = t.subterms ++ listSubterms ts :=
  rfl

theorem formed_node {part : α} {args : List (Term α)} :
    (node part args).Formed arity ↔ args.length = arity part ∧ ∀ t ∈ args, t.Formed arity :=
  ⟨fun h => by cases h with | node hlen hargs => exact ⟨hlen, hargs⟩, fun h => .node h.left h.right⟩

theorem Formed.args (h : t.Formed arity) : ∀ u ∈ t.args, u.Formed arity := by
  cases h with
  | node _ hargs => exact hargs

theorem mem_parts_of_arg {u : Term α} {p : α} (hu : u ∈ t.args) (hp : p ∈ u.parts) : p ∈ t.parts := by
  cases t with
  | node part args =>
    rw [parts_node, listParts_eq_flatten]
    exact .tail _ (List.mem_flatten.mpr ⟨u.parts, List.mem_map_of_mem hu, hp⟩)

-- A term at every part.
theorem parts_eq_map_root (t : Term α) : t.parts = t.subterms.map root := by
  induction t using Term.arg_induction with
  | node part args ih =>
    have hargs : listParts args = (listSubterms args).map root := by
      induction args with
      | nil => simp
      | cons t ts ihs =>
        obtain ⟨ht, hts⟩ := List.forall_mem_cons.mp ih
        simp [ht, ihs hts]
    simp [hargs, root]

theorem listSubterms_drop (h : (listSubterms ts)[i]? = some s)
    (ih : ∀ t ∈ ts, ∀ i s, t.subterms[i]? = some s → ∃ l, t.parts.drop i = s.parts ++ l) :
    ∃ l, (listParts ts).drop i = s.parts ++ l := by
  induction ts generalizing i with
  | nil => simp at h
  | cons t ts ihs =>
    obtain ⟨ht, hts⟩ := List.forall_mem_cons.mp ih
    have hlen : t.parts.length = t.subterms.length := by rw [parts_eq_map_root, List.length_map]
    rw [listSubterms_cons] at h
    rw [listParts_cons]
    by_cases hi : i < t.subterms.length
    case pos =>
      rw [List.getElem?_append_left hi] at h
      obtain ⟨l, hl⟩ := ht i s h
      exact ⟨l ++ listParts ts, by
        rw [List.drop_append_of_le_length (hlen ▸ Nat.le_of_lt hi), hl, List.append_assoc]⟩
    case neg =>
      have hi := Nat.le_of_not_lt hi
      rw [List.getElem?_append_right hi] at h
      obtain ⟨l, hl⟩ := ihs h hts
      exact ⟨l, by rw [List.drop_append, List.drop_eq_nil_of_le (hlen ▸ hi), hlen, hl, List.nil_append]⟩

-- A term is written from its first part on.
theorem subterms_drop (h : t.subterms[i]? = some s) : ∃ l, t.parts.drop i = s.parts ++ l := by
  induction t using Term.arg_induction generalizing i s with
  | node part args ih =>
    cases i with
    | zero =>
      rw [subterms_node, List.getElem?_cons_zero] at h
      exact ⟨[], by rw [← Option.some.inj h, List.drop_zero, List.append_nil]⟩
    | succ i =>
      rw [subterms_node, List.getElem?_cons_succ] at h
      exact listSubterms_drop h fun t ht i s => ih t ht

theorem Formed.subterm (h : t.Formed arity) (hs : s ∈ t.subterms) : s.Formed arity := by
  induction h with
  | node hlen hargs ih =>
    rw [subterms_node] at hs
    cases List.mem_cons.mp hs
    case inl hs => exact hs ▸ .node hlen hargs
    case inr hs =>
      have hlist : ∀ ts : List (Term α), (∀ t ∈ ts, s ∈ t.subterms → s.Formed arity) →
          s ∈ listSubterms ts → s.Formed arity := by
        intro ts hts hs
        induction ts with
        | nil => simp at hs
        | cons t ts ihs =>
          obtain ⟨ht, hts⟩ := List.forall_mem_cons.mp hts
          rw [listSubterms_cons] at hs
          exact (List.mem_append.mp hs).elim ht (ihs hts)
      exact hlist _ ih hs

theorem listParts_forest (h : ∀ t ∈ ts, Forest arity 1 t.parts) :
    Forest arity ts.length (listParts ts) := by
  induction ts with
  | nil => simpa using Forest.nil
  | cons t ts ih =>
    obtain ⟨ht, hts⟩ := List.forall_mem_cons.mp h
    rw [listParts_cons, List.length_cons, Nat.add_comm]
    exact ht.append (ih hts)

theorem Formed.forest (h : t.Formed arity) : Forest arity 1 t.parts := by
  induction h with
  | node hlen _ ih =>
    rw [parts_node]
    apply Forest.cons
    rw [Nat.zero_add, ← hlen]
    exact listParts_forest ih

end Term

open Term in
-- What is written as terms can be read as terms.
theorem Forest.exists_terms {α : Type*} {arity : α → Nat} {n : Nat} {l : List α}
    (h : Forest arity n l) :
    ∃ ts : List (Term α), ts.length = n ∧ (∀ t ∈ ts, t.Formed arity) ∧ listParts ts = l := by
  induction h with
  | nil => exact ⟨[], rfl, nofun, listParts_nil⟩
  | @cons n p l _ ih =>
    obtain ⟨ts, hlen, hf, hl⟩ := ih
    refine ⟨.node p (ts.take (arity p)) :: ts.drop (arity p), ?_, ?_, ?_⟩
    · simp [hlen]
    · have hargs : ∀ t ∈ ts.take (arity p), t.Formed arity := fun t ht => hf t (List.mem_of_mem_take ht)
      have hrest : ∀ t ∈ ts.drop (arity p), t.Formed arity := fun t ht => hf t (List.mem_of_mem_drop ht)
      exact List.forall_mem_cons.mpr ⟨.node (by simp [hlen]) hargs, hrest⟩
    · rw [listParts_cons, parts_node, List.cons_append, ← listParts_append, List.take_append_drop, hl]

theorem Forest.exists_term {α : Type*} {arity : α → Nat} {l : List α} (h : Forest arity 1 l) :
    ∃ t : Term α, t.Formed arity ∧ t.parts = l := by
  obtain ⟨ts, hlen, hf, hl⟩ := h.exists_terms
  obtain ⟨t, ht⟩ := List.length_eq_one_iff.mp hlen
  subst ht
  exact ⟨t, hf t (.head _), by simpa using hl⟩

namespace Term

variable {α β : Type*} {arity : α → Nat} {arity' : β → Nat} {t : Term α} {ts : List (Term α)}
  {f : α → Option (β ⊕ Term β)}

@[simp]
theorem listSubst_nil : listSubst f [] = some [] :=
  rfl

@[simp]
theorem listSubst_cons (t : Term α) (ts : List (Term α)) :
    listSubst f (t :: ts) = (t.subst f).bind fun t => (listSubst f ts).map (t :: ·) := by
  have h : listSubst f (t :: ts) = (t.subst f).bind fun t =>
      (listSubst f ts).bind fun ts => some (t :: ts) := rfl
  rw [h]
  cases t.subst f <;> cases listSubst f ts <;> rfl

@[simp]
theorem substParts_nil : substParts f [] = some [] :=
  rfl

theorem substParts_cons (p : α) (l : List α) :
    substParts f (p :: l) = match f p with
      | some (.inl q) => (substParts f l).map (q :: ·)
      | some (.inr t) => (substParts f l).map (t.parts ++ ·)
      | none          => none :=
  rfl

theorem substParts_append (l m : List α) :
    substParts f (l ++ m) = (substParts f l).bind fun l => (substParts f m).map (l ++ ·) := by
  induction l with
  | nil => cases h : substParts f m <;> simp [h]
  | cons p l ih =>
    rw [List.cons_append, substParts_cons, substParts_cons, ih]
    split <;> cases substParts f l <;> cases substParts f m <;> simp

theorem substParts_listParts (h : ∀ t ∈ ts, substParts f t.parts = (t.subst f).map parts) :
    substParts f (listParts ts) = (listSubst f ts).map listParts := by
  induction ts with
  | nil => simp
  | cons t ts ih =>
    obtain ⟨ht, hts⟩ := List.forall_mem_cons.mp h
    rw [listParts_cons, substParts_append, ht, ih hts, listSubst_cons]
    cases t.subst f <;> cases listSubst f ts <;> simp

-- A part without arguments can be replaced by a term where it is written.
theorem substParts_parts (h : t.Formed arity) (hf : ∀ p u, f p = some (.inr u) → arity p = 0) :
    substParts f t.parts = (t.subst f).map parts := by
  induction h with
  | @node part args hlen _ ih =>
    have hlist := substParts_listParts ih
    rw [parts_node, substParts_cons, subst]
    cases hp : f part with
    | none => rfl
    | some s =>
      cases s with
      | inl q =>
        simp only [hlist]
        cases listSubst f args <;> simp
      | inr u =>
        have hnil : args = [] := List.eq_nil_of_length_eq_zero (hlen.trans (hf part u hp))
        subst hnil
        simp

-- Each part of the result either replaces a part or is of a term that does.
theorem mem_of_substParts {l : List α} {m : List β} (h : substParts f l = some m) :
    ∀ q ∈ m, (∃ p ∈ l, f p = some (.inl q)) ∨ ∃ p ∈ l, ∃ u, f p = some (.inr u) ∧ q ∈ u.parts := by
  induction l generalizing m with
  | nil =>
    cases h
    nofun
  | cons p l ih =>
    rw [substParts_cons] at h
    have hrest {m' : List β} (hm' : substParts f l = some m') (q : β) (hq : q ∈ m') :
        (∃ p' ∈ p :: l, f p' = some (.inl q)) ∨
          ∃ p' ∈ p :: l, ∃ u, f p' = some (.inr u) ∧ q ∈ u.parts :=
      (ih hm' q hq).imp (Exists.imp fun p' h => ⟨.tail _ h.1, h.2⟩)
        (Exists.imp fun p' h => ⟨.tail _ h.1, h.2⟩)
    split at h
    case h_1 q hq =>
      obtain ⟨m', hm', he⟩ := Option.map_eq_some_iff.mp h
      subst he
      exact List.forall_mem_cons.mpr ⟨.inl ⟨p, .head _, hq⟩, hrest hm'⟩
    case h_2 u hu =>
      obtain ⟨m', hm', he⟩ := Option.map_eq_some_iff.mp h
      subst he
      exact List.forall_mem_append.mpr ⟨fun q hq => .inr ⟨p, .head _, u, hu, hq⟩, hrest hm'⟩
    case h_3 => cases h

theorem listSubst_eq_some {us : List (Term β)} (h : listSubst f ts = some us) :
    us.length = ts.length ∧ ∀ u ∈ us, ∃ t ∈ ts, t.subst f = some u := by
  induction ts generalizing us with
  | nil =>
    rw [listSubst_nil] at h
    exact Option.some.inj h ▸ ⟨rfl, nofun⟩
  | cons t ts ih =>
    rw [listSubst_cons] at h
    obtain ⟨u, hu, h⟩ := Option.bind_eq_some_iff.mp h
    obtain ⟨us', hus, h⟩ := Option.map_eq_some_iff.mp h
    subst h
    obtain ⟨hlen, hmem⟩ := ih hus
    refine ⟨congrArg (· + 1) hlen, List.forall_mem_cons.mpr ⟨⟨t, .head _, hu⟩, fun v hv => ?_⟩⟩
    obtain ⟨t', ht', htv⟩ := hmem v hv
    exact ⟨t', .tail _ ht', htv⟩

theorem Formed.subst {u : Term β} (h : t.Formed arity)
    (hkeep : ∀ p q, f p = some (.inl q) → arity' q = arity p)
    (hfill : ∀ p u, f p = some (.inr u) → u.Formed arity') (hu : t.subst f = some u) :
    u.Formed arity' := by
  induction h generalizing u with
  | @node part args hlen _ ih =>
    rw [Term.subst] at hu
    split at hu
    case h_1 q hq =>
      obtain ⟨us, hus, hu⟩ := Option.map_eq_some_iff.mp hu
      subst hu
      obtain ⟨hlen', hmem⟩ := listSubst_eq_some hus
      refine .node (by rw [hlen', hkeep part q hq, hlen]) fun v hv => ?_
      obtain ⟨t, ht, htv⟩ := hmem v hv
      exact ih t ht htv
    case h_2 t ht => exact Option.some.inj hu ▸ hfill part t ht
    case h_3 => cases hu

theorem subst_isSome (h : ∀ p ∈ t.parts, (f p).isSome) : (t.subst f).isSome := by
  induction t using Term.arg_induction with
  | node part args ih =>
    rw [parts_node] at h
    obtain ⟨hp, hargs⟩ := List.forall_mem_cons.mp h
    have hlist : ∀ ts : List (Term α), (∀ t ∈ ts, (∀ p ∈ t.parts, (f p).isSome) → (t.subst f).isSome) →
        (∀ p ∈ listParts ts, (f p).isSome) → (listSubst f ts).isSome := by
      intro ts hts hp
      induction ts with
      | nil => simp
      | cons t ts ihs =>
        obtain ⟨ht, hts⟩ := List.forall_mem_cons.mp hts
        rw [listParts_cons] at hp
        obtain ⟨hpt, hpts⟩ := List.forall_mem_append.mp hp
        obtain ⟨u, hu⟩ := Option.isSome_iff_exists.mp (ht hpt)
        obtain ⟨us, hus⟩ := Option.isSome_iff_exists.mp (ihs hts hpts)
        simp [hu, hus]
    obtain ⟨s, hs⟩ := Option.isSome_iff_exists.mp hp
    obtain ⟨us, hus⟩ := Option.isSome_iff_exists.mp (hlist args ih hargs)
    rw [Term.subst, hs]
    cases s <;> simp [hus]

end Term
end PrefixTerms
