import Reowolf.Types.ProgressOutcomes

namespace Reowolf.Types

open InferenceTypePart (signature)
open InferenceType

variable {heap : Heap} {expr : PolymorphicExpression} {d d' : ExtraData} {e e' : InferenceType}
variable {idx : SignatureIdx} {expr_id : Nat}

namespace ExtraData

-- The signature has the same places as before.
theorem Infers.exists_type (h : Infers heap idx d e d' e') (idx' : SignatureIdx) :
    (∃ t, d'.signature_type idx' = some t) ↔ ∃ t, d.signature_type idx' = some t := by
  by_cases hi : idx' = idx
  case pos =>
    subst hi
    obtain ⟨t, t', ht, ht', _⟩ := h.inferred
    exact iff_of_true ⟨t', ht'⟩ ⟨t, ht⟩
  case neg => rw [h.others idx' hi]

theorem Infers.begins (h : Infers heap idx d e d' e') (hd : d.Begins heap expr) : d'.Begins heap expr where
  consistent := h.consistent
  embedded   := by
    rw [← hd.embedded]
    have hiff : ∀ i, i < d'.embedded.length ↔ i < d.embedded.length := by
      intro i
      simpa [signature_type, List.getElem?_eq_some_iff] using h.exists_type (.embedded i)
    exact Nat.le_antisymm (Nat.le_of_not_lt fun hlt => Nat.lt_irrefl _ ((hiff _).mp hlt))
      (Nat.le_of_not_lt fun hlt => Nat.lt_irrefl _ ((hiff _).mpr hlt))
  settled hc idx' t' ht' := by
    by_cases hi : idx' = idx
    case neg =>
      rw [h.others idx' hi] at ht'
      exact hd.settled hc idx' t' ht'
    case pos =>
      subst hi
      obtain ⟨t, t'', ht, ht'', hr, hmarker, _⟩ := h.inferred
      cases ht''.symm.trans ht'
      obtain hm | hdone := hd.settled hc idx' t ht
      · exact .inl (hmarker.trans hm)
      · -- a type of which nothing is to be inferred stays as it is
        have hf := (hd.consistent.signatures idx' t ht).left
        have hf' := (h.consistent.signatures idx' t' ht').left
        have hall := hf.done.symm.trans hdone
        rw [List.all_eq_true] at hall
        refine .inr ?_
        rw [hf'.done, refines_of_concrete hr hall, ← hf.done, hdone]

end ExtraData

-- Some places of a signature, each with the expression that is there, have been inferred.
structure PolyInfers (body : TypedBody) (Exists : Nat → Prop) (expr : PolymorphicExpression)
    (places : List (SignatureIdx × Nat)) (p p' : PolyProgress) : Prop where
  begins   : p'.poly_data.Begins body.heap expr
  proper   : ∀ id, (p'.expr_types id).Proper body.heap
  refines  : ∀ id, signature.Refines (p.expr_types id).parts (p'.expr_types id).parts
  others   : ∀ id, id ∉ places.map Prod.snd → p'.expr_types id = p.expr_types id
  types    : ∀ idx, idx ∉ places.map Prod.fst →
    p'.poly_data.signature_type idx = p.poly_data.signature_type idx
  equal    : ∀ place ∈ places, ∃ t, p'.poly_data.signature_type place.1 = some t ∧
    signature.erase t.parts = (p'.expr_types place.2).parts
  admits   : ∀ args types, p.poly_data.Admits args types →
    (∀ place ∈ places, signature.Refines (p.expr_types place.2).parts (types place.1)) →
    p'.poly_data.Admits args types ∧
      ∀ place ∈ places, signature.Refines (p'.expr_types place.2).parts (types place.1)
  queued   : ∀ id ∈ p'.expr_queued, id ∈ p.expr_queued ∨ Exists id
  progress : p'.expr_queued ≠ p.expr_queued →
    ∃ place ∈ places, (p'.expr_types place.2).parts ≠ (p.expr_types place.2).parts

namespace PolyInfers

variable {body : TypedBody} {Exists : Nat → Prop} {place : SignatureIdx × Nat}
variable {places : List (SignatureIdx × Nat)} {p p₁ p₂ : PolyProgress}

theorem nil (hd : p.poly_data.Begins body.heap expr) (hp : ∀ id, (p.expr_types id).Proper body.heap) :
    PolyInfers body Exists expr [] p p where
  begins         := hd
  proper         := hp
  refines _      := .refl _
  others _ _     := rfl
  types _ _      := rfl
  equal _ h      := absurd h List.not_mem_nil
  admits _ _ h _ := ⟨h, fun _ h => absurd h List.not_mem_nil⟩
  queued _ h     := .inl h
  progress h     := absurd rfl h

-- One place after the other, where no two places have the same expression.
theorem cons (h : PolyInfers body Exists expr [place] p p₁) (h' : PolyInfers body Exists expr places p₁ p₂)
    (hidx : place.1 ∉ places.map Prod.fst) (hid : place.2 ∉ places.map Prod.snd) :
    PolyInfers body Exists expr (place :: places) p p₂ where
  begins := h'.begins
  proper := h'.proper
  refines id := (h.refines id).trans (h'.refines id)
  others id hid := by
    rw [List.map_cons, List.mem_cons, not_or] at hid
    rw [h'.others id hid.right, h.others id (by simpa using hid.left)]
  types idx hidx := by
    rw [List.map_cons, List.mem_cons, not_or] at hidx
    rw [h'.types idx hidx.right, h.types idx (by simpa using hidx.left)]
  equal := by
    refine List.forall_mem_cons.mpr ⟨?_, h'.equal⟩
    rw [h'.types place.1 hidx, h'.others place.2 hid]
    exact h.equal place List.mem_cons_self
  admits args types hadmits hr := by
    obtain ⟨hplace, hplaces⟩ := List.forall_mem_cons.mp hr
    obtain ⟨hadmits, hplace⟩ := h.admits args types hadmits (List.forall_mem_singleton.mpr hplace)
    have hne : ∀ place' ∈ places, place'.2 ∉ [place].map Prod.snd := by
      intro place' hm he
      rw [List.map_singleton, List.mem_singleton] at he
      exact hid (he ▸ List.mem_map_of_mem hm)
    obtain ⟨hadmits, hplaces⟩ := h'.admits args types hadmits fun place' hm => by
      rw [h.others place'.2 (hne place' hm)]
      exact hplaces place' hm
    refine ⟨hadmits, List.forall_mem_cons.mpr ⟨?_, hplaces⟩⟩
    rw [h'.others place.2 hid]
    exact hplace place List.mem_cons_self
  queued id hid := (h'.queued id hid).elim (h.queued id) .inr
  progress hq := by
    by_cases hq₁ : p₁.expr_queued = p.expr_queued
    case neg =>
      obtain ⟨place', hm, hne⟩ := h.progress hq₁
      rw [List.mem_singleton] at hm
      subst hm
      refine ⟨place', List.mem_cons_self, ?_⟩
      rwa [h'.others place'.2 hid]
    case pos =>
      obtain ⟨place', hm, hne⟩ := h'.progress (hq₁.symm ▸ hq)
      refine ⟨place', List.mem_cons_of_mem _ hm, fun he => hne ?_⟩
      have hr := h.refines place'.2
      rw [← he] at hr
      exact hr.antisymm (h'.refines place'.2)

-- The same places once more.
theorem trans (h : PolyInfers body Exists expr places p p₁) (h' : PolyInfers body Exists expr places p₁ p₂) :
    PolyInfers body Exists expr places p p₂ where
  begins         := h'.begins
  proper         := h'.proper
  refines id     := (h.refines id).trans (h'.refines id)
  others id hid  := (h'.others id hid).trans (h.others id hid)
  types idx hidx := (h'.types idx hidx).trans (h.types idx hidx)
  equal          := h'.equal
  admits args types hadmits hr := by
    obtain ⟨hadmits, hr⟩ := h.admits args types hadmits hr
    exact h'.admits args types hadmits hr
  queued id hid  := (h'.queued id hid).elim (h.queued id) .inr
  progress hq := by
    by_cases hq₁ : p₁.expr_queued = p.expr_queued
    case neg =>
      obtain ⟨place, hm, hne⟩ := h.progress hq₁
      refine ⟨place, hm, fun he => hne ?_⟩
      have hr := h'.refines place.2
      rw [he] at hr
      exact hr.antisymm (h.refines place.2)
    case pos =>
      obtain ⟨place, hm, hne⟩ := h'.progress (hq₁.symm ▸ hq)
      refine ⟨place, hm, fun he => hne ?_⟩
      have hr := h.refines place.2
      rw [← he] at hr
      exact hr.antisymm (h'.refines place.2)

-- One place has been inferred, and its expression is queued if its type has changed.
theorem single {id : Nat} {expr_queued : List Nat} (hd : p.poly_data.Begins body.heap expr)
    (hp : ∀ id, (p.expr_types id).Proper body.heap)
    (h : ExtraData.Infers body.heap idx p.poly_data (p.expr_types id) d' e')
    (hq : ∀ i ∈ expr_queued, i ∈ p.expr_queued ∨ Exists i)
    (hprogress : expr_queued ≠ p.expr_queued → e'.parts ≠ (p.expr_types id).parts) :
    PolyInfers body Exists expr [(idx, id)] p
      ⟨d', Function.update p.expr_types id e', expr_queued⟩ where
  begins := h.begins hd
  proper i := by
    by_cases hi : i = id
    case pos =>
      subst hi
      simpa using h.proper
    case neg => simpa [hi] using hp i
  refines i := by
    by_cases hi : i = id
    case pos =>
      subst hi
      simpa using h.refines
    case neg =>
      simp only [Function.update_of_ne hi]
      exact .refl _
  others i hi := by
    have hi : i ≠ id := by simpa using hi
    exact Function.update_of_ne hi ..
  types i hi := h.others i (by simpa using hi)
  equal := by
    obtain ⟨_, t', _, ht', _, _, he⟩ := h.inferred
    simpa using ⟨t', ht', he⟩
  admits args types hadmits hr := by
    obtain ⟨hadmits, hr⟩ := h.admits args types hadmits (hr (idx, id) List.mem_cons_self)
    exact ⟨hadmits, by simpa using hr⟩
  queued := hq
  progress hne := ⟨(idx, id), List.mem_cons_self, by simpa using hprogress hne⟩

-- The expressions that are queued are those of the procedure.
structure Closed (body : TypedBody) (Exists : Nat → Prop) (places : List (SignatureIdx × Nat)) : Prop where
  nodes   : ∀ place ∈ places, Exists place.2
  parents : ∀ place ∈ places, ∀ parent_id, body.parent place.2 = some parent_id → Exists parent_id

theorem Closed.queue_progressed {expr_queued : List Nat} (h : Closed body Exists places)
    (hp : place ∈ places) : ∀ i ∈ body.queue_progressed place.1 place.2 expr_queued,
      i ∈ expr_queued ∨ Exists i := by
  have hpush : ∀ expr_idx, Exists expr_idx → ∀ i ∈ push_back expr_queued expr_idx,
      i ∈ expr_queued ∨ Exists i := by
    intro expr_idx hexists i hi
    rw [push_back] at hi
    split at hi
    case isTrue  => exact .inl hi
    case isFalse =>
      rw [List.mem_append, List.mem_singleton] at hi
      exact Or.imp_right (fun he => by rwa [he]) hi
  obtain ⟨idx, id⟩ := place
  cases idx with
  | embedded i => exact hpush id (h.nodes _ hp)
  | returned =>
    simp only [TypedBody.queue_progressed]
    cases hparent : body.parent id with
    | none           => exact fun i hi => .inl hi
    | some parent_id => exact hpush parent_id (h.parents _ hp parent_id hparent)

theorem Closed.single (h : Closed body Exists places) (hp : place ∈ places)
    (hd : p.poly_data.Begins body.heap expr) (ht : ∀ id, (p.expr_types id).Proper body.heap)
    (hi : ExtraData.Infers body.heap place.1 p.poly_data (p.expr_types place.2) d' e') :
    PolyInfers body Exists expr [place] p ⟨d', Function.update p.expr_types place.2 e',
      if decide (e'.parts ≠ (p.expr_types place.2).parts) then
        body.queue_progressed place.1 place.2 p.expr_queued else p.expr_queued⟩ := by
  refine PolyInfers.single hd ht hi ?_ ?_
  · split
    case isTrue  => exact h.queue_progressed hp
    case isFalse => exact fun i hi => .inl hi
  · intro hne
    by_contra hsame
    simp [hsame] at hne

-- The first loop: all places are inferred, some types clash, or in a call of `create` there is something to
-- infer of a type without markers.
theorem infer_signatures_cases (hc : Closed body Exists places)
    (hn : (places.map Prod.fst).Nodup ∧ (places.map Prod.snd).Nodup)
    (hd : p.poly_data.Begins body.heap expr) (ht : ∀ id, (p.expr_types id).Proper body.heap)
    (hs : ∀ place ∈ places, ∃ t, p.poly_data.signature_type place.1 = some t) :
    (∃ p', body.infer_signatures expr places p = .ok p' ∧ PolyInfers body Exists expr places p p') ∨
    (∃ error, body.infer_signatures expr places p = .error (.parse_error error) ∧
      ∀ args types, p.poly_data.Admits args types →
        ¬∀ place ∈ places, signature.Refines (p.expr_types place.2).parts (types place.1)) ∨
    body.infer_signatures expr places p = .error (.panic .signature_without_marker) ∧
      expr.CallsCreate body.heap := by
  induction places generalizing p with
  | nil => exact .inl ⟨p, rfl, .nil hd ht⟩
  | cons place places ih =>
    obtain ⟨idx, id⟩ := place
    obtain ⟨⟨t, hsig⟩, hs⟩ := List.forall_mem_cons.mp hs
    simp only [List.map_cons, List.nodup_cons] at hn
    rw [TypedBody.infer_signatures]
    obtain ⟨d₁, e₁, progress_sig, hrun, hi⟩ | ⟨error, hrun, hnone⟩ | ⟨hrun, hmarker, hdone⟩ :=
      hd.consistent.apply_equal2_signature expr (ht id) hsig
    case inl =>
      have h₁ := hc.single (p := p) (List.mem_cons_self (a := (idx, id))) hd ht hi
      simp only [hrun, Except.ok_bind]
      generalize hp₁ : (⟨d₁, Function.update p.expr_types id e₁, _⟩ : PolyProgress) = p₁ at h₁
      have hs₁ : ∀ place ∈ places, ∃ t, p₁.poly_data.signature_type place.1 = some t := by
        intro place hm
        subst hp₁
        exact (hi.exists_type place.1).mpr (hs place hm)
      have hc₁ : Closed body Exists places :=
        ⟨fun place hm => hc.nodes place (List.mem_cons_of_mem _ hm),
          fun place hm => hc.parents place (List.mem_cons_of_mem _ hm)⟩
      obtain ⟨p₂, hrun₂, h₂⟩ | ⟨error, hrun₂, hnone⟩ | ⟨hrun₂, hcreate⟩ :=
        ih hc₁ ⟨hn.left.right, hn.right.right⟩ h₁.begins h₁.proper hs₁
      · exact .inl ⟨p₂, hrun₂, h₁.cons h₂ hn.left.left hn.right.left⟩
      · refine .inr (.inl ⟨error, hrun₂, fun args types hadmits hr => ?_⟩)
        obtain ⟨hplace, hplaces⟩ := List.forall_mem_cons.mp hr
        obtain ⟨hadmits, _⟩ := h₁.admits args types hadmits (by simpa using hplace)
        refine hnone args types hadmits fun place hm => ?_
        have hne : place.2 ≠ id := fun he => hn.right.left (he ▸ List.mem_map_of_mem hm)
        rw [h₁.others place.2 (by simpa using hne)]
        exact hplaces place hm
      · exact .inr (.inr ⟨hrun₂, hcreate⟩)
    case inr.inl =>
      refine .inr (.inl ⟨error, by simp only [hrun]; rfl, fun args types hadmits hr => ?_⟩)
      exact hnone args types hadmits (hr (idx, id) List.mem_cons_self)
    case inr.inr =>
      refine .inr (.inr ⟨by simp only [hrun]; rfl, ?_⟩)
      by_contra hcreate
      cases hd.settled hcreate idx t hsig with
      | inl h => exact Bool.noConfusion (h.symm.trans hmarker)
      | inr h => exact Bool.noConfusion (h.symm.trans hdone)

-- The second loop cannot fail.
theorem reinfer_signatures_ok (hc : Closed body Exists places)
    (hn : (places.map Prod.fst).Nodup ∧ (places.map Prod.snd).Nodup)
    (hd : p.poly_data.Begins body.heap expr) (ht : ∀ id, (p.expr_types id).Proper body.heap)
    (hs : ∀ place ∈ places, ∃ t, p.poly_data.signature_type place.1 = some t ∧
      signature.erase t.parts = (p.expr_types place.2).parts) :
    ∃ p', body.reinfer_signatures places p = .ok p' ∧ PolyInfers body Exists expr places p p' := by
  induction places generalizing p with
  | nil => exact ⟨p, rfl, .nil hd ht⟩
  | cons place places ih =>
    obtain ⟨idx, id⟩ := place
    obtain ⟨⟨t, hsig, he⟩, hs⟩ := List.forall_mem_cons.mp hs
    simp only [List.map_cons, List.nodup_cons] at hn
    obtain ⟨t₁, e₁, hrun, hi⟩ := hd.consistent.apply_equal2_polyvar (ht id) hsig he
    have h₁ := hc.single (p := p) (List.mem_cons_self (a := (idx, id))) hd ht hi
    rw [TypedBody.reinfer_signatures]
    simp only [hsig, or_panic_some, hrun, Except.ok_bind]
    generalize hp₁ : (⟨p.poly_data.set_signature_type idx t₁, Function.update p.expr_types id e₁, _⟩ :
      PolyProgress) = p₁ at h₁
    have hs₁ : ∀ place ∈ places, ∃ t, p₁.poly_data.signature_type place.1 = some t ∧
        signature.erase t.parts = (p₁.expr_types place.2).parts := by
      intro place hm
      have hidx : place.1 ≠ idx := fun he => hn.left.left (he ▸ List.mem_map_of_mem hm)
      have hid : place.2 ≠ id := fun he => hn.right.left (he ▸ List.mem_map_of_mem hm)
      rw [h₁.types place.1 (by simpa using hidx), h₁.others place.2 (by simpa using hid)]
      exact hs place hm
    have hc₁ : Closed body Exists places :=
      ⟨fun place hm => hc.nodes place (List.mem_cons_of_mem _ hm),
        fun place hm => hc.parents place (List.mem_cons_of_mem _ hm)⟩
    obtain ⟨p₂, hrun₂, h₂⟩ := ih hc₁ ⟨hn.left.right, hn.right.right⟩ h₁.begins h₁.proper hs₁
    exact ⟨p₂, hrun₂, h₁.cons h₂ hn.left.left hn.right.left⟩

end PolyInfers

namespace ProcedureBody

variable {body : ProcedureBody} {s : BodyTyping}

-- The places of a signature are those of different expressions.
theorem nodup_places {args : List Nat} (h : (expr_id :: args).Nodup) :
    ((TypedBody.places expr_id args).map Prod.fst).Nodup ∧
    ((TypedBody.places expr_id args).map Prod.snd).Nodup := by
  obtain ⟨hnot, hargs⟩ := List.nodup_cons.mp h
  have hfst : (TypedBody.places expr_id args).map Prod.fst =
      (List.range' 0 args.length).map SignatureIdx.embedded ++ [.returned] := by
    rw [TypedBody.places, List.map_append, ← List.zipIdx_map_snd, List.map_map, List.map_map]
    rfl
  have hsnd : (TypedBody.places expr_id args).map Prod.snd = args ++ [expr_id] := by
    rw [TypedBody.places, List.map_append, List.map_map]
    exact congrArg (· ++ [expr_id]) (List.zipIdx_map_fst ..)
  rw [hfst, hsnd]
  constructor
  case left =>
    refine List.nodup_append.mpr ⟨?_, List.nodup_singleton _, by simp⟩
    exact (List.nodup_range' ..).map fun _ _ he => SignatureIdx.embedded.inj he
  case right =>
    refine List.nodup_append.mpr ⟨hargs, List.nodup_singleton _, ?_⟩
    intro a ha b hb he
    exact hnot (List.mem_singleton.mp hb ▸ he ▸ ha)

-- Each place has the type of its expression.
theorem types_of_places (τ : Typing) {place : SignatureIdx × Nat}
    (h : place ∈ TypedBody.places expr_id expr.expr_args) :
    τ.places expr_id expr place.1 = τ.expr place.2 ∧ place.2 ∈ expr_id :: expr.expr_args := by
  rw [TypedBody.places, List.mem_append, List.mem_map, List.mem_singleton] at h
  obtain ⟨⟨arg_id, arg_idx⟩, hm, he⟩ | he := h
  · subst he
    have hget := List.mk_mem_zipIdx_iff_getElem?.mp hm
    refine ⟨?_, List.mem_cons_of_mem _ (List.mem_of_getElem? hget)⟩
    simp [Typing.places, hget]
  · subst he
    exact ⟨rfl, List.mem_cons_self⟩

-- What calls, literals and selections have in common.
theorem progress_signatures_outcome {data : ExtraData} (h : body.Linked) (hs : body.Valid s)
    (he : body.exprs expr_id = some (.polymorphic expr)) (hd : data.Begins body.heap expr)
    (ha : ∀ τ : Typing, τ.WellTyped body → body.Admits s τ →
      data.Admits (τ.args expr_id) (τ.places expr_id expr)) :
    (∃ p, body.toTypedBody.progress_signatures expr_id expr data s.toPassTyping = .ok p ∧
      body.propagation.Narrows (·.WellTyped body) s { s with toPassTyping := p } ∧
      body.Steady s { s with toPassTyping := p }) ∨
    (∃ error, body.toTypedBody.progress_signatures expr_id expr data s.toPassTyping =
        .error (.parse_error error) ∧ ∀ τ : Typing, τ.WellTyped body → ¬body.Admits s τ) ∨
    body.toTypedBody.progress_signatures expr_id expr data s.toPassTyping =
        .error (.panic .signature_without_marker) ∧ expr.CallsCreate body.heap := by
  have hnodes := h.nodes he
  have hplaces := nodup_places (h.distinct expr_id _ he)
  have hclosed : PolyInfers.Closed body.toTypedBody (fun id => body.exprs id ≠ none)
      (TypedBody.places expr_id expr.expr_args) := by
    refine ⟨fun place hm => ?_, fun place _ => h.parents place.2⟩
    exact hnodes place.2 (types_of_places ⟨fun _ => [], fun _ => [], fun _ => []⟩ hm).right
  have hsigs : ∀ place ∈ TypedBody.places expr_id expr.expr_args,
      ∃ t, data.signature_type place.1 = some t := by
    intro place hm
    rw [TypedBody.places, List.mem_append, List.mem_map, List.mem_singleton] at hm
    obtain ⟨⟨arg_id, arg_idx⟩, hm, heq⟩ | heq := hm
    · subst heq
      have hlt := (List.getElem?_eq_some_iff.mp (List.mk_mem_zipIdx_iff_getElem?.mp hm)).1
      exact ⟨_, List.getElem?_eq_getElem (hd.embedded.symm ▸ hlt)⟩
    · subst heq
      exact ⟨data.returned, rfl⟩
  have hadmits : ∀ τ : Typing, body.Admits s τ → ∀ place ∈ TypedBody.places expr_id expr.expr_args,
      signature.Refines (s.expr_types place.2).parts (τ.places expr_id expr place.1) := by
    intro τ hτ place hm
    rw [(types_of_places τ hm).left]
    exact hτ.exprs place.2
  have hstart : (⟨data, s.expr_types, s.expr_queued⟩ : PolyProgress).poly_data.Begins
      body.toTypedBody.heap expr := hd
  rw [TypedBody.progress_signatures, if_neg (not_not.mpr hd.embedded)]
  obtain ⟨p₁, hrun₁, h₁⟩ | ⟨error, hrun, hnone⟩ | ⟨hrun, hcreate⟩ :=
    PolyInfers.infer_signatures_cases hclosed hplaces hstart hs.exprs hsigs
  case inr.inl =>
    refine .inr (.inl ⟨error, by simp only [hrun]; rfl, fun τ hτ hadm => ?_⟩)
    exact hnone _ _ (ha τ hτ hadm) (hadmits τ hadm)
  case inr.inr => exact .inr (.inr ⟨by simp only [hrun]; rfl, hcreate⟩)
  case inl =>
    obtain ⟨p₂, hrun₂, h₂⟩ :=
      PolyInfers.reinfer_signatures_ok hclosed hplaces h₁.begins h₁.proper h₁.equal
    have h₁₂ := h₁.trans h₂
    have hrefines : body.Refines s { s with toPassTyping := {
        expr_types  := p₂.expr_types
        extra_data  := Function.update s.extra_data expr_id (some p₂.poly_data)
        expr_queued := p₂.expr_queued } } :=
      ⟨fun id _ => h₁₂.refines id, fun _ data hd => ⟨data, hd, .refl _⟩⟩
    refine .inl ⟨_, by simp only [hrun₁, Except.ok_bind, hrun₂], ⟨?_, hrefines, fun τ hτ hadm => ?_⟩, ?_⟩
    · refine { hs with exprs := h₁₂.proper, data := fun id expr' he' => ?_, queued := fun id hid => ?_ }
      · by_cases hi : id = expr_id
        case neg => simpa only [Function.update_of_ne hi] using hs.data id expr' he'
        case pos =>
          subst hi
          cases he.symm.trans he'
          simp only [Function.update_self]
          refine ⟨fun _ => Option.some_ne_none _, fun data' hdata' => ?_⟩
          cases hdata'
          exact h₁₂.begins
      · exact (h₁₂.queued id hid).elim (hs.queued id) fun h => h
    · obtain ⟨hdata, hr⟩ := h₁₂.admits _ _ (ha τ hτ hadm) (hadmits τ hadm)
      refine ⟨fun id => ?_, hadm.vars, fun id expr' data' he' hdata' => ?_⟩
      · by_cases hi : id ∈ (TypedBody.places expr_id expr.expr_args).map Prod.snd
        case neg =>
          simp only [h₁₂.others id hi]
          exact hadm.exprs id
        case pos =>
          obtain ⟨place, hm, hplace⟩ := List.mem_map.mp hi
          subst hplace
          have hr := hr place hm
          rwa [(types_of_places τ hm).left] at hr
      · simp only at hdata'
        by_cases hi : id = expr_id
        case neg =>
          rw [Function.update_of_ne hi] at hdata'
          exact hadm.data id expr' data' he' hdata'
        case pos =>
          subst hi
          cases he.symm.trans he'
          rw [Function.update_self] at hdata'
          cases hdata'
          exact hdata
    · by_cases hq : p₂.expr_queued = s.expr_queued
      case pos => exact .inl hq
      case neg =>
        obtain ⟨place, hm, hne⟩ := h₁₂.progress hq
        exact .inr (progresses_of_ne (hclosed.nodes place hm) hrefines hne)

section Selection

variable {parts : List InferenceTypePart} {struct_def_id : DefinitionId}

-- A type that may be an instance is one, or nothing is known of it.
theorem instance_of_refines {num : Nat} {rest : List InferenceTypePart} (ht : signature.Forest 1 parts)
    (hr : signature.Refines parts (.«instance» struct_def_id num :: rest)) :
    TypedBody.determine_inference_type_instance parts = .ok none ∨
    TypedBody.determine_inference_type_instance parts = .ok (some struct_def_id) := by
  obtain ⟨p, l, hparts, _⟩ := ht.exists_cons
  subst hparts
  by_cases hp : p = .unknown
  case pos =>
    subst hp
    have hl := TermSignature.Forest.eq_hole ht
    subst hl
    exact .inl rfl
  case neg =>
    obtain ⟨q, l', hq, hpq, _⟩ := (TermSignature.Refines.cons_iff hp).mp hr
    cases hq
    obtain hpq | hpq := hpq
    · subst hpq
      exact .inr rfl
    · obtain ⟨_, hq⟩ | ⟨_, hq | hq⟩ | ⟨_, hq⟩ | ⟨_, hq⟩ :=
        InferenceTypePart.may_be_inferred_from_iff.mp hpq <;> cases hq

theorem mem_of_instance
    (h : TypedBody.determine_inference_type_instance parts = .ok (some struct_def_id)) :
    ∃ num, .«instance» struct_def_id num ∈ parts := by
  induction parts with
  | nil => cases h
  | cons part parts ih =>
    unfold TypedBody.determine_inference_type_instance at h
    split at h
    case isTrue =>
      obtain ⟨num, hm⟩ := ih h
      exact ⟨num, List.mem_cons_of_mem _ hm⟩
    case isFalse =>
      cases part with
      | «instance» id num =>
        cases h
        exact ⟨num, List.mem_cons_self⟩
      | _ => cases h

end Selection

-- The results of the progress of an expression with extra data.
theorem lift_outcome {result : Except TypingStop PassTyping}
    (he : body.exprs expr_id = some (.polymorphic expr))
    (hresult : body.toTypedBody.progress_expr expr_id s.toPassTyping = result)
    (h : (∃ p, result = .ok p ∧
        body.propagation.Narrows (·.WellTyped body) s { s with toPassTyping := p } ∧
        body.Steady s { s with toPassTyping := p }) ∨
      (∃ error, result = .error (.parse_error error) ∧
        ∀ τ : Typing, τ.WellTyped body → ¬body.Admits s τ) ∨
      result = .error (.panic .signature_without_marker) ∧ expr.CallsCreate body.heap) :
    body.Progress s (body.progress_polymorphic_expr expr_id s) := by
  rw [progress_polymorphic_expr, hresult]
  obtain ⟨p, hp, hn, hsteady⟩ | ⟨error, hp, hnone⟩ | ⟨hp, hcreate⟩ := h
  case inl =>
    subst hp
    exact .ok hn hsteady
  case inr.inl =>
    subst hp
    exact .conflict (.inl ⟨error, rfl⟩) hnone
  case inr.inr =>
    subst hp
    exact .stop ⟨rfl, expr_id, expr, he, hcreate⟩

theorem toTypedBody_exprs (he : body.exprs expr_id = some (.polymorphic expr)) :
    body.toTypedBody.exprs expr_id = some expr := by
  simp [toTypedBody, he]

-- The field of a struct: the struct is looked up the first time that the type of the subject is known.
theorem progress_select_outcome {subject : Nat} {field_name : Identifier} (h : body.Linked)
    (hs : body.Valid s) (he : body.exprs expr_id = some (.polymorphic (.select subject field_name))) :
    body.Progress s (body.progress_polymorphic_expr expr_id s) := by
  have hrule := fun (τ : Typing) (hτ : τ.WellTyped body) => (hτ.exprs expr_id _ he).exists_field
  have hp := hs.exprs subject
  refine lift_outcome he (by rw [TypedBody.progress_expr, toTypedBody_exprs he]) ?_
  simp only [TypedBody.progress_select_expr]
  cases hdata : s.extra_data expr_id with
  | some data =>
    exact progress_signatures_outcome h hs he ((hs.data expr_id _ he).right data hdata)
      fun τ _ hadm => hadm.data expr_id _ data he hdata
  | none =>
    simp only
    have hinstance : ∀ τ : Typing, τ.WellTyped body → body.Admits s τ → ∃ struct_def_id,
        (∃ num rest, τ.expr subject = .«instance» struct_def_id num :: rest) ∧
        (TypedBody.determine_inference_type_instance (s.expr_types subject).parts = .ok none ∨
        TypedBody.determine_inference_type_instance (s.expr_types subject).parts =
          .ok (some struct_def_id)) := by
      intro τ hτ hadm
      obtain ⟨struct_def_id, num, rest, _, _, _, _, hexpr, _⟩ := hrule τ hτ
      exact ⟨struct_def_id, ⟨num, rest, hexpr⟩,
        instance_of_refines hp.tree (hexpr ▸ hadm.exprs subject)⟩
    cases hdet : TypedBody.determine_inference_type_instance (s.expr_types subject).parts with
    | error error =>
      refine .inr (.inl ⟨_, rfl, fun τ hτ hadm => ?_⟩)
      obtain ⟨_, _, hdet' | hdet'⟩ := hinstance τ hτ hadm <;> cases hdet.symm.trans hdet'
    | ok found =>
      cases found with
      | none => exact .inl ⟨_, rfl, .refl hs, .inl rfl⟩
      | some struct_def_id =>
        obtain ⟨num, hm⟩ := mem_of_instance hdet
        obtain ⟨definition, hd⟩ := hp.known _ hm struct_def_id num rfl
        have hstruct : ∀ τ : Typing, τ.WellTyped body → body.Admits s τ → ∃ fields field_idx data,
            definition.variant = .struct fields ∧
            fields.findIdx? (fun field => field.field = field_name) = some field_idx ∧
            insert_initial_select_polymorph_data body.heap body.poly_vars expr_id struct_def_id field_idx =
              some data ∧
            data.Admits (τ.args expr_id) (τ.places expr_id (.select subject field_name)) := by
          intro τ hτ hadm
          obtain ⟨id, _, _, definition', fields, field_idx, data, hexpr, hd', hv, hf, hdata, ha⟩ := hrule τ hτ
          obtain ⟨id', ⟨_, _, hexpr'⟩, hdet' | hdet'⟩ := hinstance τ hτ hadm
          · cases hdet.symm.trans hdet'
          · cases hdet.symm.trans hdet'
            cases hexpr.symm.trans hexpr'
            cases hd.symm.trans hd'
            exact ⟨fields, field_idx, data, hv, hf, hdata, ha⟩
        have hd : body.toTypedBody.heap.definitions[struct_def_id]? = some definition := hd
        simp only [hd, or_panic_some, Except.ok_bind]
        cases hv : definition.variant with
        | struct fields =>
          simp only
          cases hf : fields.findIdx? fun field => field.field = field_name with
          | none =>
            refine .inr (.inl ⟨_, rfl, fun τ hτ hadm => ?_⟩)
            obtain ⟨_, _, _, hv', hf', _⟩ := hstruct τ hτ hadm
            cases hv.symm.trans hv'
            cases hf.symm.trans hf'
          | some field_idx =>
            obtain ⟨hlt, _⟩ := List.findIdx?_eq_some_iff_getElem.mp hf
            obtain ⟨data, hinsert, hbegins⟩ : ∃ data, insert_initial_select_polymorph_data body.heap
                body.poly_vars expr_id struct_def_id field_idx = some data ∧
                data.Begins body.heap (.select subject field_name) :=
              begins_select h.poly_vars h.heap hd hv hlt
            have hinsert' : insert_initial_select_polymorph_data body.toTypedBody.heap
                body.toTypedBody.poly_vars expr_id struct_def_id field_idx = some data := hinsert
            simp only [hinsert', or_panic_some, Except.ok_bind]
            refine progress_signatures_outcome h hs he hbegins fun τ hτ hadm => ?_
            obtain ⟨_, _, data', hv', hf', hdata', ha⟩ := hstruct τ hτ hadm
            cases hv.symm.trans hv'
            cases hf.symm.trans hf'
            cases hinsert.symm.trans hdata'
            exact ha
        | enum | union | function | component =>
          refine .inr (.inl ⟨_, rfl, fun τ hτ hadm => ?_⟩)
          obtain ⟨_, _, _, hv', _⟩ := hstruct τ hτ hadm
          cases hv.symm.trans hv'

theorem progress_polymorphic_outcome (h : body.Linked) (hs : body.Valid s)
    (he : body.exprs expr_id = some (.polymorphic expr)) :
    body.Progress s (body.progress_polymorphic_expr expr_id s) := by
  by_cases hselect : expr.is_select = true
  case pos =>
    cases expr with
    | select subject field_name => exact progress_select_outcome h hs he
    | _ => cases hselect
  case neg =>
    rw [Bool.not_eq_true] at hselect
    obtain ⟨data, hdata⟩ := Option.ne_none_iff_exists'.mp ((hs.data expr_id expr he).left hselect)
    have hprogress := progress_signatures_outcome h hs he ((hs.data expr_id expr he).right data hdata)
      fun τ _ hadm => hadm.data expr_id expr data he hdata
    cases expr with
    | select subject field_name => cases hselect
    | call definition poly_args arguments =>
      refine lift_outcome he (by rw [TypedBody.progress_expr, toTypedBody_exprs he]) ?_
      simpa only [TypedBody.progress_call_expr, hdata, or_panic_some, Except.ok_bind] using hprogress
    | struct_literal | enum_literal | union_literal =>
      refine lift_outcome he (by rw [TypedBody.progress_expr, toTypedBody_exprs he]) ?_
      simpa only [TypedBody.progress_literal_expr, hdata, or_panic_some, Except.ok_bind] using hprogress

-- An expression of the procedure makes progress, there is a conflict with every typing, or the inference
-- stops in a call of `create`.
theorem progress_expr_outcome (h : body.Linked) (hs : body.Valid s) (hid : body.exprs expr_id ≠ none) :
    body.Progress s (body.progress_expr expr_id s) := by
  obtain ⟨expr, he⟩ := Option.ne_none_iff_exists'.mp hid
  rw [progress_expr, he]
  cases expr with
  | assignment operation left right => exact progress_assignment_outcome h hs he
  | binding bound_to bound_from => exact progress_binding_outcome h hs he
  | conditional test true_expression false_expression => exact progress_conditional_outcome h hs he
  | binary operation left right => exact progress_binary_outcome h hs he
  | unary operation expression => exact progress_unary_outcome h hs he
  | indexing subject index => exact progress_indexing_outcome h hs he
  | slicing subject from_index to_index => exact progress_slicing_outcome h hs he
  | plain_literal literal => exact progress_plain_literal_outcome h hs he
  | array_literal elements => exact progress_array_literal_outcome h hs he
  | polymorphic expr => exact progress_polymorphic_outcome h hs he
  | cast to_type subject => exact progress_cast_outcome h hs he
  | «variable» declaration => exact progress_variable_outcome h hs he

end ProcedureBody
end Reowolf.Types
