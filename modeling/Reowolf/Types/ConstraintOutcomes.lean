import Reowolf.Types.TypingRules

namespace Reowolf.Types

open InferenceTypePart (signature)
open InferenceType

section Elements

variable {l c template : List InferenceTypePart} {idx : Nat}

-- From the index on the parts are one type: all of them, or the type of the elements.
def TypeFrom (l : List InferenceTypePart) : Nat → Prop
  | 0 => signature.Forest 1 l
  | 1 => ∃ p m, l = p :: m ∧ p ≠ .unknown ∧ signature.Forest 1 m
  | _ => False

namespace TypeFrom

theorem subtreeAt (h : TypeFrom l idx) : SubtreeAt l idx (l.take idx) (l.drop idx) [] := by
  cases idx with
  | zero => exact ⟨by simp, rfl, h⟩
  | succ idx =>
    cases idx with
    | succ => cases h
    | zero =>
      obtain ⟨p, m, hl, _, hm⟩ := h
      subst hl
      exact ⟨by simp, rfl, hm⟩

-- What is in front of the index and what is behind it are refined on their own.
theorem refines (h : TypeFrom l idx) (hr : signature.Refines l c) :
    signature.Refines (l.take idx) (c.take idx) ∧ signature.Refines (l.drop idx) (c.drop idx) := by
  cases idx with
  | zero => exact ⟨.nil, hr⟩
  | succ idx =>
    cases idx with
    | succ => cases h
    | zero =>
      obtain ⟨p, m, hl, hp, _⟩ := h
      subst hl
      obtain ⟨q, c', hc, hq, hm⟩ := (TermSignature.Refines.cons_iff hp).mp hr
      subst hc
      refine ⟨?_, hm⟩
      obtain hq | hq := hq
      · subst hq
        exact .refl _
      · exact .narrow hq .nil

theorem of_refines (h : TypeFrom l idx) (hr : signature.Refines l c) : TypeFrom c idx := by
  cases idx with
  | zero => exact hr.forest h
  | succ idx =>
    cases idx with
    | succ => cases h
    | zero =>
      obtain ⟨p, m, hl, hp, hm⟩ := h
      subst hl
      obtain ⟨q, c', hc, hq, hr⟩ := (TermSignature.Refines.cons_iff hp).mp hr
      refine ⟨q, c', hc, ?_, hr.forest hm⟩
      obtain hq | hq := hq
      · exact hq ▸ hp
      · exact (signature.narrows_filled hq).right

end TypeFrom

theorem refines_take_append {r : List InferenceTypePart} (hr : signature.Refines (l.drop idx) r) :
    signature.Refines l (l.take idx ++ r) := by
  have happend := (TermSignature.Refines.refl (l.take idx)).append hr
  rwa [List.take_append_drop] at happend

-- A type with other parts from the index on is refined by what refines these.
theorem TypeFrom.refines_append {r : List InferenceTypePart} (h : TypeFrom l idx)
    (hr : signature.Refines l c) (hd : signature.Refines r (c.drop idx)) :
    signature.Refines (l.take idx ++ r) c := by
  have happend := (h.refines hr).left.append hd
  rwa [List.take_append_drop] at happend

-- A type with one argument that is refined.
theorem typeFrom_elements {p : InferenceTypePart} (hp : p ≠ .unknown) : TypeFrom [p, .unknown] 1 :=
  ⟨p, [.unknown], rfl, hp, .cons .nil⟩

end Elements

-- The templates have no markers.
structure Template (heap : Heap) (template : List InferenceTypePart) : Prop where
  tree     : signature.Forest 1 template
  unmarked : signature.Unmarked template
  known    : ∀ p ∈ template, p.Known heap

namespace InferenceType

variable {heap : Heap} {a b : InferenceType} {idx m n : Nat}
variable {front t r template : List InferenceTypePart}

-- A part of a type is refined.
theorem Proper.update_from (h : a.Proper heap) (hr : signature.Refines (a.parts.drop idx) r) (hk : ∀ p ∈ r, p.Known heap) :
    (a.update (a.parts.take idx ++ r) (decide (r ≠ a.parts.drop idx))).Proper heap ∧
      signature.Refines a.parts (a.parts.take idx ++ r) ∧
      (a.parts.take idx ++ r ≠ a.parts ↔ r ≠ a.parts.drop idx) := by
  have hrefines := refines_take_append hr
  have hsame : a.parts.take idx ++ r = a.parts ↔ r = a.parts.drop idx := by
    constructor
    case mp =>
      intro he
      exact List.append_cancel_left (he.trans (List.take_append_drop idx _).symm)
    case mpr =>
      intro he
      rw [he, List.take_append_drop]
  refine ⟨⟨h.update hrefines (fun p hp => ?_) fun hd => ?_, ?_⟩, hrefines, not_congr hsame⟩
  · exact (List.mem_append.mp hp).elim (fun hp => h.known p (List.mem_of_mem_take hp)) (hk p)
  · exact hsame.mpr (not_not.mp (decide_eq_false_iff_not.mp hd))
  · rw [update_parts]
    exact hrefines.unmarked h.unmarked

theorem Proper.isTemplate (h : a.Proper heap) : Template heap a.parts :=
  ⟨h.tree, h.unmarked, h.known⟩

theorem Proper.known_drop (h : a.Proper heap) : ∀ p ∈ a.parts.drop n, p.Known heap :=
  fun p hp => h.known p (List.mem_of_mem_drop hp)

theorem Proper.unmarked_drop (h : a.Proper heap) : signature.Unmarked (a.parts.drop n) :=
  fun p hp => h.unmarked p (List.mem_of_mem_drop hp)

-- Types get the same parts from an index on, or there are no such parts.
theorem Proper.infer_both (ha : a.Proper heap) (hb : b.Proper heap) (hta : TypeFrom a.parts m)
    (htb : TypeFrom b.parts n) :
    (∃ r res a' b', infer_subtrees_for_both_types a m b n = some (res, a', b') ∧
      res ≠ .incompatible ∧ signature.IsMeet (a.parts.drop m) (b.parts.drop n) r ∧
      a'.Proper heap ∧ a'.parts = a.parts.take m ++ r ∧
      b'.Proper heap ∧ b'.parts = b.parts.take n ++ r ∧
      res.modified_lhs = decide (a'.parts ≠ a.parts) ∧ res.modified_rhs = decide (b'.parts ≠ b.parts)) ∨
    ∃ a' b', infer_subtrees_for_both_types a m b n = some (.incompatible, a', b') ∧
      signature.Disjoint (a.parts.drop m) (b.parts.drop n) := by
  have hua := ha.unmarked_drop (n := m)
  have hub := hb.unmarked_drop (n := n)
  obtain ⟨ra, rb, hm⟩ | hc := TermSignature.merges_or_clashes hta.subtreeAt.tree htb.subtreeAt.tree
  case inl =>
    obtain ⟨hra, hrb⟩ := hm.refines
    have hmeet := hm.meet
    have hsame := hm.erase_eq
    rw [hua.erase_eq, hub.erase_eq, (hra.unmarked hua).erase_eq] at hmeet
    rw [(hra.unmarked hua).erase_eq, (hrb.unmarked hub).erase_eq] at hsame
    subst hsame
    obtain ⟨hka, hkb⟩ := hm.all ha.known_drop hb.known_drop
    obtain ⟨ha', _, hna⟩ := ha.update_from hra hka
    obtain ⟨hb', _, hnb⟩ := hb.update_from hrb hkb
    have hrun := infer_both_types_eq hta.subtreeAt htb.subtreeAt hm
    simp only [List.append_nil] at hrun
    obtain ⟨hres, hlhs, hrhs⟩ := of_modified_spec (decide (ra ≠ a.parts.drop m))
      (decide (ra ≠ b.parts.drop n))
    refine .inl ⟨ra, _, _, _, hrun, hres, hmeet, ha', by rw [update_parts], hb', by rw [update_parts],
      ?_, ?_⟩
    · rw [hlhs, update_parts, decide_eq_decide, hna]
    · rw [hrhs, update_parts, decide_eq_decide, hnb]
  case inr =>
    obtain ⟨a', b', hrun⟩ := infer_both_types_clashes hta.subtreeAt htb.subtreeAt hc
    have hd := hc.disjoint
    rw [hua.erase_eq, hub.erase_eq] at hd
    exact .inr ⟨a', b', hrun, hd⟩

-- A type is refined by a template from an index on, or the two have no common refinement. A template
-- that is forced has to be such a refinement itself.
theorem Proper.infer_single (ha : a.Proper heap) (hta : TypeFrom a.parts m)
    (htb : TypeFrom template n) (hub : signature.Unmarked (template.drop n))
    (hkb : ∀ p ∈ template.drop n, p.Known heap) (forced : Bool) :
    (∃ r a', infer_subtree_for_single_type a m template n forced =
        some (if a'.parts ≠ a.parts then .modified else .unmodified, a') ∧
      signature.IsMeet (a.parts.drop m) (template.drop n) r ∧ a'.Proper heap ∧
      a'.parts = a.parts.take m ++ r) ∨
    ∃ a', infer_subtree_for_single_type a m template n forced = some (.incompatible, a') ∧
      ∀ c, signature.Refines (a.parts.drop m) c → signature.Refines (template.drop n) c →
        forced = true ∧ c ≠ template.drop n := by
  have hua := ha.unmarked_drop (n := m)
  obtain ⟨ra, rb, hm⟩ | hc := TermSignature.merges_or_clashes hta.subtreeAt.tree htb.subtreeAt.tree
  case inl =>
    obtain ⟨hra, hrb⟩ := hm.refines
    have hright := hm.right_eq_iff
    have hmeet := hm.meet
    rw [hua.erase_eq, hub.erase_eq] at hright
    rw [hua.erase_eq, hub.erase_eq, (hra.unmarked hua).erase_eq] at hmeet
    by_cases hforced : forced = true → rb = template.drop n
    case pos =>
      obtain ⟨ha', _, hna⟩ := ha.update_from hra (hm.all ha.known_drop hkb).left
      have hrun := infer_single_type_eq forced hta.subtreeAt htb.subtreeAt hm hforced
      simp only [List.append_nil] at hrun
      refine .inl ⟨ra, _, ?_, hmeet, ha', update_parts _ _ _⟩
      rw [hrun, update_parts]
      simp only [hna]
    case neg =>
      obtain ⟨hforced, hne⟩ := Classical.not_imp.mp hforced
      obtain ⟨res, a', hrun, hres, _⟩ :=
        infer_single_type_merges forced hta.subtreeAt htb.subtreeAt hm
      refine .inr ⟨a', by rw [hrun, hres.mpr ⟨hforced, hne⟩], fun c hc _ => ⟨hforced, fun he => ?_⟩⟩
      exact hne (hright.mpr (he ▸ hc))
  case inr =>
    obtain ⟨a', hrun, _⟩ := infer_single_type_clashes forced hta.subtreeAt htb.subtreeAt hc
    have hd := hc.disjoint
    rw [hua.erase_eq, hub.erase_eq] at hd
    exact .inr ⟨a', hrun, fun c ha hb => absurd ⟨ha, hb⟩ (hd c)⟩

end InferenceType

namespace ProcedureBody

variable {body : ProcedureBody}

-- What holds in every state: all types are complete, and what is inferred of polymorphic expressions
-- belongs together. The ends of a channel are ports.
structure Valid (body : ProcedureBody) (s : BodyTyping) : Prop where
  exprs    : ∀ id, (s.expr_types id).Proper body.heap
  vars     : ∀ var_id data, s.var_types var_id = some data → data.var_type.Proper body.heap
  declared : ∀ var_id, (s.var_types var_id).map VarData.linked_var =
    (body.initial_var_data var_id).map VarData.linked_var
  ports    : ∀ var_id data linked_id, s.var_types var_id = some data →
    data.linked_var = some linked_id → linked_id ≠ var_id ∧ TypeFrom data.var_type.parts 1 ∧
    ∃ linked, s.var_types linked_id = some linked ∧ TypeFrom linked.var_type.parts 1
  used     : ∀ var_id data, s.var_types var_id = some data → ∀ id ∈ data.used_at, body.exprs id ≠ none
  data     : ∀ id expr, body.exprs id = some (.polymorphic expr) →
    (expr.is_select = false → s.extra_data id ≠ none) ∧
    ∀ data, s.extra_data id = some data → data.Begins body.heap expr
  queued   : ∀ id ∈ s.expr_queued, body.exprs id ≠ none

-- The types of the expressions and of the variables are refined.
structure Refines (body : ProcedureBody) (s s' : BodyTyping) : Prop where
  exprs : ∀ id, body.exprs id ≠ none →
    signature.Refines (s.expr_types id).parts (s'.expr_types id).parts
  vars  : ∀ var_id data, s.var_types var_id = some data → ∃ data', s'.var_types var_id = some data' ∧
    signature.Refines data.var_type.parts data'.var_type.parts

theorem Refines.refl (s : BodyTyping) : body.Refines s s where
  exprs _ _ := .refl _
  vars _ data h := ⟨data, h, .refl _⟩

theorem Refines.trans {s₁ s₂ s₃ : BodyTyping} (h : body.Refines s₁ s₂) (h' : body.Refines s₂ s₃) :
    body.Refines s₁ s₃ where
  exprs id hid := (h.exprs id hid).trans (h'.exprs id hid)
  vars var_id data hd := by
    obtain ⟨data₂, hd₂, hr⟩ := h.vars var_id data hd
    obtain ⟨data₃, hd₃, hr'⟩ := h'.vars var_id data₂ hd₂
    exact ⟨data₃, hd₃, hr.trans hr'⟩

-- The typing refines all that has been inferred.
structure Admits (body : ProcedureBody) (s : BodyTyping) (τ : Typing) : Prop where
  exprs : ∀ id, signature.Refines (s.expr_types id).parts (τ.expr id)
  vars  : ∀ var_id data, s.var_types var_id = some data →
    signature.Refines data.var_type.parts (τ.var var_id)
  data  : ∀ id expr data, body.exprs id = some (.polymorphic expr) → s.extra_data id = some data →
    data.Admits (τ.args id) (τ.places id expr)

-- The inference of types as the propagation of constraints. It stops where a type without markers makes
-- progress, which is only possible in a call of `create`.
def propagation (body : ProcedureBody) : Propagation BodyTyping Typing InferenceStop where
  Valid      := body.Valid
  Refines    := body.Refines
  Admits     := body.Admits
  Conflict e := (∃ error, e = .parse_error error) ∨ ∃ error, e = .constraint_error error
  Stops e    := e = .panic .signature_without_marker ∧
    ∃ id expr, body.exprs id = some (.polymorphic expr) ∧ expr.CallsCreate body.heap
  refl       := Refines.refl
  trans      := Refines.trans

-- What a constraint does: it refines types, and if it says that it has made progress then it has changed
-- one of them. Otherwise it leaves the queue alone.
structure Effect (body : ProcedureBody) (s : BodyTyping) (made : Bool) (s' : BodyTyping) : Prop where
  refines  : body.Refines s s'
  progress : made = true → body.propagation.Progresses s s'
  queued   : made = false → s'.expr_queued = s.expr_queued

variable {s s' s₁ s₂ s₃ : BodyTyping} {p q : Bool} {id a b : Nat} {R : Typing → Prop}
variable {types : ExprTypes} {template : List InferenceTypePart}

namespace Effect

theorem refl (s : BodyTyping) : body.Effect s false s where
  refines    := .refl s
  progress h := Bool.noConfusion h
  queued _   := rfl

theorem trans (h : body.Effect s₁ p s₂) (h' : body.Effect s₂ q s₃) : body.Effect s₁ (p || q) s₃ where
  refines  := h.refines.trans h'.refines
  progress hpq := by
    rw [Bool.or_eq_true] at hpq
    cases hpq with
    | inl hp => exact (h.progress hp).mono (.refl _) h'.refines
    | inr hq => exact (h'.progress hq).mono h.refines (.refl _)
  queued hpq := by
    obtain ⟨hp, hq⟩ := Bool.or_eq_false_iff.mp hpq
    exact (h'.queued hq).trans (h.queued hp)

end Effect

section Expressions

-- A type that is done is that of every typing.
theorem Admits.expr_eq {τ : Typing} (h : body.Admits s τ) (hs : body.Valid s)
    (hd : (s.expr_types id).is_done = true) : τ.expr id = (s.expr_types id).parts := by
  have hdone := (hs.exprs id).done.symm.trans hd
  rw [List.all_eq_true] at hdone
  exact refines_of_concrete (h.exprs id) hdone

-- The types of expressions are refined.
theorem narrows_exprs (hs : body.Valid s)
    (ht : ∀ id, (types id).Proper body.heap ∧
      signature.Refines (s.expr_types id).parts (types id).parts)
    (ha : ∀ τ, R τ → body.Admits s τ → ∀ id, signature.Refines (types id).parts (τ.expr id)) :
    body.propagation.Narrows R s { s with expr_types := types } where
  valid        := { hs with exprs := fun id => (ht id).left }
  refines      := ⟨fun id _ => (ht id).right, fun _ data h => ⟨data, h, .refl _⟩⟩
  admits τ h h' := ⟨ha τ h h', h'.vars, h'.data⟩

theorem progresses_of_ne (hid : body.exprs id ≠ none) (hr : body.Refines s s')
    (hne : (s'.expr_types id).parts ≠ (s.expr_types id).parts) : body.propagation.Progresses s s' :=
  fun hr' => hne ((hr'.exprs id hid).antisymm (hr.exprs id hid))

-- One type is refined.
theorem narrows_expr {t : InferenceType} (hs : body.Valid s) (ht : t.Proper body.heap)
    (hr : signature.Refines (s.expr_types id).parts t.parts)
    (ha : ∀ τ, R τ → body.Admits s τ → signature.Refines t.parts (τ.expr id)) :
    body.propagation.Narrows R s { s with expr_types := Function.update s.expr_types id t } := by
  refine narrows_exprs hs (fun i => ?_) (fun τ hτ hadmits i => ?_)
  case refine_1 =>
    by_cases hi : i = id
    case pos =>
      subst hi
      rw [Function.update_self]
      exact ⟨ht, hr⟩
    case neg =>
      rw [Function.update_of_ne hi]
      exact ⟨hs.exprs i, .refl _⟩
  case refine_2 =>
    by_cases hi : i = id
    case pos =>
      subst hi
      rw [Function.update_self]
      exact ha τ hτ hadmits
    case neg =>
      rw [Function.update_of_ne hi]
      exact hadmits.exprs i

theorem apply_template_outcome (forced : Bool) (hs : body.Valid s) (hid : body.exprs id ≠ none)
    (ht : Template body.heap template) :
    body.propagation.Outcome
      (fun τ => signature.Refines template (τ.expr id) ∧ (forced = true → τ.expr id = template)) Prod.snd
      (fun r => body.Effect s r.1 r.2 ∧ signature.Refines template (r.2.expr_types id).parts) s
      (body.apply_template forced id template s) := by
  have hp := hs.exprs id
  obtain ⟨r, t, hrun, hmeet, ht', hparts⟩ | ⟨t, hrun, hnone⟩ := hp.infer_single (m := 0)
    (n := 0) hp.tree ht.tree ht.unmarked ht.known forced
  case inl =>
    rw [List.take_zero, List.nil_append] at hparts
    obtain ⟨hr, hrt⟩ := (hmeet r).mpr (.refl r)
    have hn := narrows_expr (R := fun τ => signature.Refines template (τ.expr id) ∧
        (forced = true → τ.expr id = template)) hs ht' (hparts ▸ hr) fun τ hτ hadmits =>
      hparts ▸ (hmeet _).mp ⟨hadmits.exprs id, hτ.left⟩
    have hstep : body.apply_template forced id template s = .ok (decide (t.parts ≠ (s.expr_types id).parts),
        { s with expr_types := Function.update s.expr_types id t }) := by
      rw [apply_template, hrun]
      by_cases hne : t.parts = (s.expr_types id).parts <;> simp [expect, hne, Except.ok_bind]
    rw [hstep]
    refine .ok hn ⟨⟨hn.refines, fun hne => ?_, fun _ => rfl⟩, ?_⟩
    · refine progresses_of_ne hid hn.refines ?_
      rw [decide_eq_true_eq] at hne
      simpa using hne
    · simpa [hparts] using hrt
  case inr =>
    have hstep : body.apply_template forced id template s =
        .error (body.construct_template_type_error t template) := by
      rw [apply_template, hrun]
      rfl
    rw [hstep]
    refine .conflict (.inl ⟨_, rfl⟩) fun τ hτ hadmits => ?_
    obtain ⟨hforced, hne⟩ := hnone _ (hadmits.exprs id) hτ.left
    exact hne (hτ.right hforced)

theorem apply_forced_outcome (hs : body.Valid s) (hid : body.exprs id ≠ none)
    (ht : Template body.heap template) :
    body.propagation.Outcome (fun τ => τ.expr id = template) Prod.snd (fun r => body.Effect s r.1 r.2) s
      (body.apply_forced_constraint id template s) :=
  (apply_template_outcome true hs hid ht).mono (fun _ hτ _ => ⟨hτ ▸ .refl _, fun _ => hτ⟩)
    fun _ _ h => h.left

theorem apply_template_constraint_outcome (hs : body.Valid s) (hid : body.exprs id ≠ none)
    (ht : Template body.heap template) :
    body.propagation.Outcome (fun τ => Typing.Fits template (τ.expr id)) Prod.snd
      (fun r => body.Effect s r.1 r.2 ∧ signature.Refines template (r.2.expr_types id).parts) s
      (body.apply_template_constraint id template s) :=
  (apply_template_outcome false hs hid ht).mono (fun _ hτ _ => ⟨hτ, fun h => Bool.noConfusion h⟩)
    fun _ _ h => h

-- The types of some expressions get the same parts from an index on.
structure Unifies (body : ProcedureBody) (s : BodyTyping) (args : List Nat) (start_idx : Nat → Nat)
    (types : ExprTypes) (r : List InferenceTypePart) : Prop where
  start   : ∀ i ∈ args, TypeFrom (s.expr_types i).parts (start_idx i)
  proper  : ∀ i ∈ args, (types i).Proper body.heap
  parts   : ∀ i ∈ args, (types i).parts = (s.expr_types i).parts.take (start_idx i) ++ r
  others  : ∀ i ∉ args, types i = s.expr_types i
  general : signature.MostGeneralOf (args.map fun i => (s.expr_types i).parts.drop (start_idx i)) r

theorem Unifies.narrows {args : List Nat} {start_idx : Nat → Nat} {r : List InferenceTypePart}
    (h : body.Unifies s args start_idx types r) (hs : body.Valid s)
    (hsol : ∀ τ, R τ → ∀ i ∈ args, ∀ j ∈ args,
      (τ.expr i).drop (start_idx i) = (τ.expr j).drop (start_idx j)) :
    body.propagation.Narrows R s { s with expr_types := types } := by
  refine narrows_exprs hs (fun i => ?_) (fun τ hτ hadmits i => ?_)
  case refine_1 =>
    by_cases hi : i ∈ args
    case pos =>
      refine ⟨h.proper i hi, ?_⟩
      rw [h.parts i hi]
      exact refines_take_append (h.general.left _ (List.mem_map_of_mem hi))
    case neg =>
      rw [h.others i hi]
      exact ⟨hs.exprs i, .refl _⟩
  case refine_2 =>
    by_cases hi : i ∈ args
    case pos =>
      rw [h.parts i hi]
      refine (h.start i hi).refines_append (hadmits.exprs i) (h.general.iff.mp ?_)
      rw [List.forall_mem_map]
      intro j hj
      rw [hsol τ hτ i hi j hj]
      exact ((h.start j hj).refines (hadmits.exprs j)).right
    case neg =>
      rw [h.others i hi]
      exact hadmits.exprs i

-- The types at the indices have no common refinement, so no typing gives these parts to all of them.
theorem not_admits_of_disjoint {args : List Nat} {start_idx : Nat → Nat} {τ : Typing}
    (ht : ∀ i ∈ args, TypeFrom (s.expr_types i).parts (start_idx i))
    (hn : ∀ c, ¬∀ i ∈ args, signature.Refines ((s.expr_types i).parts.drop (start_idx i)) c)
    (hne : args ≠ []) (hτ : ∀ i ∈ args, ∀ j ∈ args,
      (τ.expr i).drop (start_idx i) = (τ.expr j).drop (start_idx j)) : ¬body.Admits s τ := by
  intro hadmits
  obtain ⟨i, hi⟩ := List.exists_mem_of_ne_nil args hne
  refine hn ((τ.expr i).drop (start_idx i)) fun j hj => ?_
  rw [hτ i hi j hj]
  exact ((ht j hj).refines (hadmits.exprs j)).right

theorem effect_of_ne {args : List Nat} (hid : ∀ i ∈ args, body.exprs i ≠ none)
    (hr : body.Refines s { s with expr_types := types })
    (hp : p = true → ∃ i ∈ args, (types i).parts ≠ (s.expr_types i).parts) :
    body.Effect s p { s with expr_types := types } where
  refines    := hr
  progress h := by
    obtain ⟨i, hi, hne⟩ := hp h
    exact progresses_of_ne (hid i hi) hr hne
  queued _   := rfl

theorem apply_equal2_outcome {m n : Nat} (hs : body.Valid s) (hab : a ≠ b)
    (hid : ∀ i ∈ [a, b], body.exprs i ≠ none)
    (hta : TypeFrom (s.expr_types a).parts m) (htb : TypeFrom (s.expr_types b).parts n) :
    body.propagation.Outcome (fun τ => (τ.expr a).drop m = (τ.expr b).drop n) Prod.snd
      (fun r => body.Effect s (r.1.1 || r.1.2) r.2) s (apply_equal2_constraint id a m b n s) := by
  obtain ⟨start_idx, hia, hib⟩ : ∃ start_idx : Nat → Nat, start_idx a = m ∧ start_idx b = n :=
    ⟨Function.update (fun _ => n) a m, by simp, by simp [hab.symm]⟩
  subst hia hib
  have hstart : ∀ i ∈ [a, b], TypeFrom (s.expr_types i).parts (start_idx i) := by simp [hta, htb]
  have hsol : ∀ τ : Typing, (τ.expr a).drop (start_idx a) = (τ.expr b).drop (start_idx b) →
      ∀ i ∈ [a, b], ∀ j ∈ [a, b], (τ.expr i).drop (start_idx i) = (τ.expr j).drop (start_idx j) := by
    intro τ hτ
    simp [hτ]
  obtain ⟨r, res, a', b', hrun, hres, hmeet, ha', hparts_a, hb', hparts_b, hlhs, hrhs⟩ |
    ⟨a', b', hrun, hd⟩ := (hs.exprs a).infer_both (hs.exprs b) hta htb
  case inl =>
    have hupdate : Function.update (Function.update s.expr_types a a') b b' a = a' := by simp [hab]
    have hunifies : body.Unifies s [a, b] start_idx
        (Function.update (Function.update s.expr_types a a') b b') r := by
      refine ⟨hstart, ?_, ?_, ?_, (TermSignature.MostGeneralOf.singleton _).append hmeet⟩
      · simp [hupdate, ha', hb']
      · simp [hupdate, hparts_a, hparts_b]
      · intro i hi
        simp only [List.mem_cons, List.not_mem_nil, or_false, not_or] at hi
        simp [hi]
    have hn := hunifies.narrows hs hsol
    have hstep : apply_equal2_constraint id a (start_idx a) b (start_idx b) s =
        .ok ((res.modified_lhs, res.modified_rhs),
          { s with expr_types := Function.update (Function.update s.expr_types a a') b b' }) := by
      simp [apply_equal2_constraint, hrun, expect, Except.ok_bind, hres]
    rw [hstep]
    refine .ok hn (effect_of_ne hid hn.refines fun hp => ?_)
    simpa [hlhs, hrhs, hupdate] using hp
  case inr =>
    have hstep : apply_equal2_constraint id a (start_idx a) b (start_idx b) s =
        .error (.constraint_error (.arg_type_error id a b)) := by
      simp [apply_equal2_constraint, hrun, expect, Except.ok_bind]
    rw [hstep]
    refine .conflict (.inr ⟨_, rfl⟩) fun τ hτ => not_admits_of_disjoint hstart (fun c hc => ?_)
      (List.cons_ne_nil _ _) (hsol τ hτ)
    exact hd c ⟨hc a (by simp), hc b (by simp)⟩

theorem apply_equal2_whole_outcome (hs : body.Valid s) (hab : a ≠ b)
    (hid : ∀ i ∈ [a, b], body.exprs i ≠ none) :
    body.propagation.Outcome (fun τ => τ.expr a = τ.expr b) Prod.snd
      (fun r => body.Effect s (r.1.1 || r.1.2) r.2) s (apply_equal2_constraint id a 0 b 0 s) :=
  apply_equal2_outcome (m := 0) (n := 0) hs hab hid (hs.exprs a).tree (hs.exprs b).tree

-- The types have no markers, and there are no parts in them that were in none of the types before.
theorem Unifies.of_plain {args : List Nat} {start_idx : Nat → Nat} {r : List InferenceTypePart}
    (hs : body.Valid s) (hne : args ≠ [])
    (ht : ∀ i ∈ args, TypeFrom (s.expr_types i).parts (start_idx i))
    (hg : signature.MostGeneralOf (args.map fun i => (s.expr_types i).parts.drop (start_idx i)) r)
    (hp : ∀ i ∈ args, (types i).Plain ∧
      (types i).parts = (s.expr_types i).parts.take (start_idx i) ++ r)
    (ho : ∀ i ∉ args, types i = s.expr_types i) : body.Unifies s args start_idx types r where
  start   := ht
  parts   := fun i hi => (hp i hi).right
  others  := ho
  general := hg
  proper  := by
    have hknown : ∀ p ∈ r, p.Known body.heap := by
      refine hg.all (by simpa using hne) (List.forall_mem_map.mpr fun i hi => ?_)
      exact ⟨(ht i hi).subtreeAt.tree, (hs.exprs i).unmarked_drop, (hs.exprs i).known_drop⟩
    intro i hi
    obtain ⟨hplain, hparts⟩ := hp i hi
    refine ⟨⟨hplain.wellFormed, fun p hp => ?_⟩, hplain.unmarked⟩
    rw [hparts] at hp
    exact (List.mem_append.mp hp).elim (fun hp => (hs.exprs i).known p (List.mem_of_mem_take hp)) (hknown p)

theorem haveInstanceOf_of_refines {ls : List (List InferenceTypePart)} {c : List InferenceTypePart}
    (hu : ∀ l ∈ ls, signature.Unmarked l) (hne : ls ≠ []) (hc : ∀ l ∈ ls, signature.Refines l c) :
    signature.HaveInstanceOf ls := by
  obtain ⟨l, hl⟩ := List.exists_mem_of_ne_nil ls hne
  obtain ⟨c', hc', hg⟩ := TermSignature.Refines.exists_ground ((hc l hl).unmarked (hu l hl))
  exact ⟨c', fun l hl => (hc l hl).trans hc', hg⟩

theorem apply_equal3_outcome {n : Nat} (hs : body.Valid s) (hn : [id, a, b].Nodup)
    (hid : ∀ i ∈ [id, a, b], body.exprs i ≠ none)
    (ht : ∀ i ∈ [id, a, b], TypeFrom (s.expr_types i).parts n) :
    body.propagation.Outcome
      (fun τ => (τ.expr a).drop n = (τ.expr id).drop n ∧
        (τ.expr b).drop n = (τ.expr id).drop n) Prod.snd
      (fun r => body.Effect s (r.1.1 || r.1.2.1 || r.1.2.2) r.2) s
      (apply_equal3_constraint id a b n s) := by
  have hsol : ∀ τ : Typing, (τ.expr a).drop n = (τ.expr id).drop n ∧
      (τ.expr b).drop n = (τ.expr id).drop n →
      ∀ i ∈ [id, a, b], ∀ j ∈ [id, a, b], (τ.expr i).drop n = (τ.expr j).drop n := by
    rintro τ ⟨ha, hb⟩
    simp [ha, hb]
  have hsub : ∀ i ∈ [id, a, b], SubtreeAt (s.expr_types i).parts n
      ((s.expr_types i).parts.take n) ((s.expr_types i).parts.drop n) [] :=
    fun i hi => (ht i hi).subtreeAt
  have hne := hn
  simp only [List.nodup_cons, List.mem_cons, List.not_mem_nil, or_false, not_or] at hne
  obtain ⟨e, hrun, hnone⟩ | ⟨types, r, hrun, hg, hparts, hothers⟩ :=
    apply_equal3_cases hne.left.left hne.left.right hne.right.left (fun i _ => (hs.exprs i).plain) hsub
  case inl =>
    have hstep : apply_equal3_constraint id a b n s = .error (.constraint_error e) := by
      simp [apply_equal3_constraint, hrun, expect, Except.ok_bind]
    rw [hstep]
    refine .conflict (.inr ⟨_, rfl⟩) fun τ hτ => not_admits_of_disjoint ht (fun c hc => hnone ?_)
      (List.cons_ne_nil _ _) (hsol τ hτ)
    refine haveInstanceOf_of_refines (c := c) ?_ (List.cons_ne_nil _ _) ?_
    · simp only [List.forall_mem_cons]
      exact ⟨(hs.exprs id).unmarked_drop, (hs.exprs a).unmarked_drop, (hs.exprs b).unmarked_drop,
        fun _ h => absurd h List.not_mem_nil⟩
    · simpa using hc
  case inr =>
    have hunifies : body.Unifies s [id, a, b] (fun _ => n) types r :=
      .of_plain hs (List.cons_ne_nil _ _) ht hg (by simpa using hparts) hothers
    have hnarrows := hunifies.narrows hs hsol
    have hstep : apply_equal3_constraint id a b n s =
        .ok ((decide (r ≠ (s.expr_types id).parts.drop n),
          decide (r ≠ (s.expr_types a).parts.drop n),
          decide (r ≠ (s.expr_types b).parts.drop n)), { s with expr_types := types }) := by
      simp [apply_equal3_constraint, hrun, expect, Except.ok_bind]
    rw [hstep]
    refine .ok hnarrows (effect_of_ne hid hnarrows.refines fun hp => ?_)
    have hflag : ∀ i ∈ [id, a, b], r ≠ (s.expr_types i).parts.drop n →
        (types i).parts ≠ (s.expr_types i).parts := by
      intro i hi hr he
      rw [hunifies.parts i hi] at he
      exact hr (List.append_cancel_left (he.trans (List.take_append_drop n _).symm))
    simp only [Bool.or_eq_true, decide_eq_true_eq] at hp
    obtain (hp | hp) | hp := hp
    · exact ⟨id, by simp, hflag id (by simp) hp⟩
    · exact ⟨a, by simp, hflag a (by simp) hp⟩
    · exact ⟨b, by simp, hflag b (by simp) hp⟩

theorem apply_equal3_whole_outcome (hs : body.Valid s) (hn : [id, a, b].Nodup)
    (hid : ∀ i ∈ [id, a, b], body.exprs i ≠ none) :
    body.propagation.Outcome (fun τ => τ.expr a = τ.expr id ∧ τ.expr b = τ.expr id) Prod.snd
      (fun r => body.Effect s (r.1.1 || r.1.2.1 || r.1.2.2) r.2) s
      (apply_equal3_constraint id a b 0 s) :=
  apply_equal3_outcome (n := 0) hs hn hid fun i _ => (hs.exprs i).tree

theorem apply_equal_n_outcome {args : List Nat} (hs : body.Valid s) (hn : args.Nodup)
    (hid : ∀ i ∈ args, body.exprs i ≠ none) :
    body.propagation.Outcome (fun τ => ∀ i ∈ args, ∀ j ∈ args, τ.expr i = τ.expr j) Prod.snd
      (fun r => body.Effect s (r.1.any fun p => p) r.2) s (apply_equal_n_constraint id args s) := by
  have hequalizes : EqualizesAll s.expr_types id args :=
    apply_equal_n_constraint_spec hn fun i _ => (hs.exprs i).plain
  obtain ⟨out, hrun, herror, hok⟩ := hequalizes
  have hstart : ∀ i ∈ args, TypeFrom (s.expr_types i).parts 0 := fun i _ => (hs.exprs i).tree
  cases out with
  | error e =>
    have hstep : apply_equal_n_constraint id args s = .error (.constraint_error e) := by
      simp [apply_equal_n_constraint, hrun, expect, Except.ok_bind]
    rw [hstep]
    refine .conflict (.inr ⟨_, rfl⟩) fun τ hτ hadmits => ?_
    have hnone := herror.mp ⟨e, rfl⟩
    have hne : args ≠ [] := by
      intro he
      subst he
      exact hnone ⟨[], fun _ h => absurd h List.not_mem_nil, fun _ h => absurd h List.not_mem_nil⟩
    refine not_admits_of_disjoint hstart (fun c hc => hnone ?_) hne hτ hadmits
    refine haveInstanceOf_of_refines (c := c) ?_ (by simpa using hne) (List.forall_mem_map.mpr hc)
    exact List.forall_mem_map.mpr fun i _ => (hs.exprs i).unmarked
  | ok result =>
    obtain ⟨types, progress⟩ := result
    obtain ⟨hparts, hequal, hothers, hprogress⟩ := hok types progress rfl
    have hstep : apply_equal_n_constraint id args s = .ok (progress, { s with expr_types := types }) := by
      simp [apply_equal_n_constraint, hrun, expect, Except.ok_bind]
    rw [hstep]
    by_cases hne : args = []
    case pos =>
      subst hne
      have hsame : types = s.expr_types := funext fun i => hothers i List.not_mem_nil
      subst hprogress hsame
      exact .ok (.refl hs) (.refl s)
    case neg =>
      obtain ⟨i₀, hi₀⟩ := List.exists_mem_of_ne_nil args hne
      have hunifies : body.Unifies s args (fun _ => 0) types (types i₀).parts := by
        refine .of_plain hs hne hstart ?_ (fun i hi => ⟨(hparts i hi).left, ?_⟩) hothers
        · simpa using (hparts i₀ hi₀).right
        · exact hequal i hi i₀ hi₀
      have hnarrows := hunifies.narrows hs (R := fun τ => ∀ i ∈ args, ∀ j ∈ args,
        τ.expr i = τ.expr j) fun τ hτ => hτ
      refine .ok hnarrows (effect_of_ne hid hnarrows.refines fun hp => ?_)
      rw [hprogress, List.any_map, List.any_eq_true] at hp
      obtain ⟨i, hi, hp⟩ := hp
      exact ⟨i, hi, of_decide_eq_true hp⟩

end Expressions

end ProcedureBody
end Reowolf.Types
