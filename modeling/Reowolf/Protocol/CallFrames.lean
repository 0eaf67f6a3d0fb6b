import Mathlib.Logic.Relation
import Reowolf.Protocol.OwnedRuns

namespace Reowolf

namespace Store

variable {store store' : Store} {K : Multiset HeapPos} {vs values values' : List Value} {v v' operand : Value}

theorem Owns.add_unassigned (h : store.Owns vs K) (n : Nat) :
    store.Owns (List.replicate n .unassigned ++ vs) K := by
  induction n with
  | zero      => exact h
  | succ n ih => exact ih.of_none rfl

theorem read_take_ownership_owned (hs : store.Plain) (h : store.Owns (v :: vs) K)
    (hr : store.read_take_ownership v = .ok (v', store')) :
    store'.Owns (v' :: vs) K ∧ store.Keeps store' K ∧ v'.is_ref = false := by
  by_cases href : v.is_ref
  case pos =>
    cases v with
    | ref id =>
      obtain ⟨w, hw, hc⟩ := Except.bind_eq_ok.mp hr
      have hw : store.maybe_read_ref (.ref id) = .ok w := hw
      obtain ⟨h', hk, hp, _⟩ := clone_value_owned h.forget (hs.maybe_read_ref hw) hc
      exact ⟨h', hk, hp⟩
    | _ => cases href
  case neg =>
    have he : v' = v ∧ store' = store := by
      cases v <;> first | (cases hr; exact ⟨rfl, rfl⟩) | exact absurd rfl href
    obtain ⟨rfl, rfl⟩ := he
    exact ⟨h, .refl, by simpa using href⟩

-- The arguments of a call become slots.
theorem push_arguments_owned {num_args : Nat} (hs : ∀ v ∈ store.stack, v.is_ref = false)
    (h : store.Owns (values.take num_args ++ vs) K)
    (hp : push_arguments num_args values store = .ok (values', store')) :
    ∃ pushed, store'.stack = store.stack ++ pushed ∧ (∀ v ∈ pushed, v.is_ref = false) ∧
      store'.cur_stack_boundary = store.cur_stack_boundary ∧ values' = values.drop num_args ∧
      num_args ≤ values.length ∧ store'.Owns (pushed ++ vs) K ∧
      ∀ pos ∈ K, store'.heap_regions[pos]? = store.heap_regions[pos]? := by
  induction num_args generalizing values store vs with
  | zero =>
    cases hp
    exact ⟨[], (List.append_nil _).symm, by simp, rfl, rfl, Nat.zero_le _, h, fun _ _ => rfl⟩
  | succ num_args ih =>
    obtain ⟨⟨argument, values₁⟩, hv, hrest⟩ := Except.bind_eq_ok.mp hp
    obtain ⟨⟨argument', store₁⟩, hr, hrest⟩ := Except.bind_eq_ok.mp hrest
    have hv := pop_front_eq_ok hv
    subst hv
    obtain ⟨h₁, hk₁, hp₁⟩ := read_take_ownership_owned ⟨hs, h.plain⟩ h hr
    let store₂ := { store₁ with stack := store₁.stack ++ [argument'] }
    have hs₂ : ∀ v ∈ store₂.stack, v.is_ref = false := by
      intro v hv
      cases List.mem_append.mp hv with
      | inl hv => exact hs v (hk₁.stack ▸ hv)
      | inr hv => exact List.mem_singleton.mp hv ▸ hp₁
    have h₂ : store₂.Owns (values₁.take num_args ++ argument' :: vs) K := by
      have h₁ := h₁.perm List.perm_middle.symm
      exact ⟨h₁.toLinear, h₁.plain⟩
    obtain ⟨pushed, hstack, hplain, hb, hvalues, hn, ho, hk⟩ := ih hs₂ h₂ hrest
    refine ⟨argument' :: pushed, ?_, ?_, hb.trans hk₁.boundary, hvalues, Nat.succ_le_succ hn,
      ho.perm List.perm_middle, fun pos hp => (hk pos hp).trans (hk₁.regions pos hp)⟩
    · have hstack₂ : store₂.stack = store.stack ++ [argument'] := congrArg (· ++ _) hk₁.stack
      rw [hstack, hstack₂, List.append_assoc]
      rfl
    · intro v hv
      cases List.mem_cons.mp hv with
      | inl he => exact he ▸ hp₁
      | inr hv => exact hplain v hv

-- What is taken of an operand stands for the same.
theorem Holds.read_take_ownership_reps {base slots : List Value} {kept : List HeapAllocation}
    (h : store.Holds base slots (operand :: vs) K kept)
    (hr : store.read_take_ownership operand = .ok (v, store')) :
    ∃ w t F F', store.maybe_read_ref operand = .ok w ∧ store.Reps [w] [t] F ∧ store'.Reps [v] [t] F' := by
  by_cases href : operand.is_ref
  case pos =>
    cases operand with
    | ref id =>
      obtain ⟨w, hw, hc⟩ := Except.bind_eq_ok.mp hr
      obtain ⟨hp, hu⟩ := h.read_ref (h.outside (.ref id) List.mem_cons_self) hw
      obtain ⟨t, F, F', ht, ht'⟩ := clone_value_reps h.owns hp hu hc
      exact ⟨w, t, F, F', hw, ht, ht'⟩
    | _ => cases href
  case neg =>
    have he : v = operand ∧ store' = store ∧ store.maybe_read_ref operand = .ok operand := by
      cases operand <;> first | (cases hr; exact ⟨rfl, rfl, rfl⟩) | exact absurd rfl href
    obtain ⟨rfl, rfl, hread⟩ := he
    have h' : store'.Owns ([v] ++ (slots ++ vs)) K := h.owns_cons
    obtain ⟨ts, F, ht⟩ := h'.exists_reps
    obtain ⟨t, hts⟩ := List.length_eq_one_iff.mp ht.length
    subst hts
    exact ⟨v, t, F, F, hread, ht, ht⟩

end Store

section

variable {env : EvalEnv} {ctx : EvalContext} {frame callee : Frame} {frames : List Frame}
variable {store : Store} {K : Multiset HeapPos} {vs others base slots below : List Value}
variable {kept : List HeapAllocation} {out : Outcome} {prompt prompt' : Prompt} {prev : Int}
variable {this : ExpressionId} {v operand : Value}

-- A call puts the frame of the callee on top, and its arguments into the first slots.
structure Prompt.Calls (store : Store) (frame : Frame) (frames : List Frame) (num_args : Nat)
    (slots : List Value) (prompt : Prompt) : Prop where
  frames   : ∃ callee, callee.expr_values = [] ∧ prompt.frames =
    callee :: { frame with expr_values := frame.expr_values.drop num_args } :: frames
  num_args : num_args ≤ frame.expr_values.length
  stack    : prompt.store.stack = store.stack ++ .prevStackBoundary store.cur_stack_boundary :: slots
  boundary : prompt.store.cur_stack_boundary = store.stack.length
  plain    : ∀ v ∈ slots, v.is_ref = false

theorem call_user_function_owned {num_args : Nat} {definition : DefinitionId}
    (hs : ∀ v ∈ store.stack, v.is_ref = false)
    (h : store.Owns (frame.expr_values.take num_args ++ vs) K)
    (hc : call_user_function env frame frames this num_args definition store = .ok out) :
    ∃ slots, out.prompt.Calls store frame frames num_args slots ∧ out.prompt.store.Owns (slots ++ vs) K ∧
      ∀ pos ∈ K, out.prompt.store.heap_regions[pos]? = store.heap_regions[pos]? := by
  obtain ⟨⟨values, store₁⟩, hp, hc⟩ := Except.bind_eq_ok.mp hc
  obtain ⟨data, _, hc⟩ := Except.bind_eq_ok.mp hc
  obtain ⟨callee, _, he⟩ := Except.bind_eq_ok.mp hc
  cases he
  let marked : Store := { store with stack := store.stack ++ [.prevStackBoundary store.cur_stack_boundary] }
  have hmarked : ∀ v ∈ marked.stack, v.is_ref = false := by
    intro v hv
    cases List.mem_append.mp hv with
    | inl hv => exact hs v hv
    | inr hv => exact List.mem_singleton.mp hv ▸ rfl
  have h₀ : marked.Owns (frame.expr_values.take num_args ++ vs) K := ⟨h.toLinear, h.plain⟩
  obtain ⟨pushed, hstack, hplain, _, hvalues, hn, ho, hk⟩ :=
    Store.push_arguments_owned hmarked h₀ (lift_eq_ok.mp hp)
  subst hvalues
  let callee' := Frame.new env.heap callee data.field_or_monomorph_idx
  let room := store.stack.length + callee'.max_stack_size + 1 - store₁.stack.length
  refine ⟨pushed ++ List.replicate room .unassigned, ⟨⟨callee', rfl, rfl⟩, hn, ?_, rfl, ?_⟩, ?_, hk⟩
  · show store₁.stack ++ List.replicate room .unassigned = _
    rw [hstack, List.append_assoc, List.append_assoc]
    rfl
  · intro v hv
    cases List.mem_append.mp hv with
    | inl hv => exact hplain v hv
    | inr hv => exact List.eq_of_mem_replicate hv ▸ rfl
  · have hperm : (List.replicate room Value.unassigned ++ (pushed ++ vs)).Perm
        (pushed ++ List.replicate room Value.unassigned ++ vs) := by
      rw [← List.append_assoc]
      exact List.perm_append_comm.append_right vs
    have ho := (ho.add_unassigned room).perm hperm
    exact ⟨ho.toLinear, ho.plain⟩

-- A return takes the frame of the callee and its part of the stack away, and gives the caller what the
-- operand stands for.
structure Prompt.Returns (prompt : Prompt) (callee : Frame) (frames : List Frame) (below : List Value)
    (prev : Int) (slots : List Value) (operand v : Value) (prompt' : Prompt) : Prop where
  before   : prompt.frames = callee :: frames
  result   : callee.expr_values.getLast? = some operand
  stack    : prompt.store.stack = below ++ .prevStackBoundary prev :: slots
  deep     : ∃ w t F F', prompt.store.maybe_read_ref operand = .ok w ∧ prompt.store.Reps [w] [t] F ∧
    prompt'.store.Reps [v] [t] F'
  released : ∀ w ∈ slots, ∀ pos, w.get_heap_pos = some pos → pos ∈ prompt'.store.free_regions
  after    : prompt'.frames = frames.modifyHead fun caller =>
    { caller with expr_values := caller.expr_values ++ [v] }
  restored : frames ≠ [] → prompt'.store.stack = below ∧ prompt'.store.cur_stack_boundary = prev.toNat

theorem exec_return_owned
    (h : store.Holds (below ++ [.prevStackBoundary prev]) slots (frame.expr_values ++ others) K kept)
    (he : exec_return frame frames store = .ok out) :
    ∃ operand v, Prompt.Returns ⟨frame :: frames, store⟩ frame frames below prev slots operand v out.prompt ∧
      v.is_ref = false ∧ out.prompt.store.Owns (v :: others) K ∧
      ∀ pos ∈ K, out.prompt.store.heap_regions[pos]? = kept[pos]? := by
  obtain ⟨⟨operand, init⟩, hv, he⟩ := Except.bind_eq_ok.mp he
  obtain ⟨⟨v, store₁⟩, hr, he⟩ := Except.bind_eq_ok.mp he
  obtain ⟨store₂, hc, he⟩ := Except.bind_eq_ok.mp he
  obtain ⟨⟨boundary, stack⟩, hb, he⟩ := Except.bind_eq_ok.mp he
  obtain ⟨prev_stack_idx, hprev, he⟩ := Except.bind_eq_ok.mp he
  simp only [lift_eq_ok] at hv hr hc hb hprev
  have hv := pop_back_eq_ok hv
  rw [hv] at h
  have h₀ := h.perm popped_perm
  obtain ⟨w, t, F, F', hread, ht, ht'⟩ := h₀.read_take_ownership_reps hr
  obtain ⟨h₁, hp⟩ := h₀.read_take_ownership hr
  obtain ⟨h₂, hreleased, _⟩ := h₁.clear_stack hc
  -- The regions of the value are kept while the slots are cleared.
  have hdeep : store₂.Reps [v] [t] F' := by
    have ho : store₁.Owns ([v] ++ (slots ++ (init ++ others))) K := h₁.owns_cons
    have ho := ho.keep ht'
    have h₁' : store₁.Holds (below ++ [.prevStackBoundary prev]) slots [] (F' + K) store₁.heap_regions :=
      ⟨h₁.stack, h₁.boundary, h₁.plain, by simp, fun _ _ => rfl,
        (ho.perm List.perm_append_comm).forget_all.perm (by simp)⟩
    obtain ⟨h₂', _⟩ := h₁'.clear_stack hc
    exact ht'.congr fun pos hp => h₂'.kept pos (Multiset.mem_add.mpr (.inl hp))
  have hbase : store₂.stack.take (store₂.cur_stack_boundary + 1) = below ++ [.prevStackBoundary prev] := by
    rw [h₂.stack, ← h₂.boundary, List.take_left']
    rfl
  rw [hbase, pop_back_append] at hb
  cases hb
  cases hprev
  have hperm : (v :: (init ++ others)).Perm (init ++ v :: others) := List.perm_middle.symm
  have ho : store₂.Owns (v :: others) K := (h₂.perm hperm).owns.forget_all.forget_all
  have hoperand : frame.expr_values.getLast? = some operand := by rw [hv, List.getLast?_concat]
  have hstack : store.stack = below ++ .prevStackBoundary prev :: slots := by
    rw [h.stack, List.append_assoc]
    rfl
  cases frames with
  | nil =>
    cases he
    exact ⟨operand, v, ⟨rfl, hoperand, hstack, ⟨w, t, F, F', hread, ht, hdeep⟩, hreleased, rfl, by simp⟩,
      hp, ⟨ho.toLinear, ho.plain⟩, h₂.kept⟩
  | cons caller frames =>
    cases he
    exact ⟨operand, v, ⟨rfl, hoperand, hstack, ⟨w, t, F, F', hread, ht, hdeep⟩, hreleased, rfl,
      fun _ => ⟨rfl, rfl⟩⟩, hp, ⟨ho.toLinear, ho.plain⟩, h₂.kept⟩

-- The stack below the slots of a frame: a part of others, and then with each frame the slots of the one
-- below it, with the boundary that there was.
inductive StackBase (below : List Value) (prev : Int) : Nat → List Value → Prop
  | first : StackBase below prev 0 (below ++ [.prevStackBoundary prev])
  | next {n base slots boundary} :
    StackBase below prev n base → base.length = boundary + 1 → (∀ v ∈ slots, v.is_ref = false) →
    StackBase below prev (n + 1) (base ++ slots ++ [.prevStackBoundary boundary])

namespace StackBase

variable {n : Nat} {marker : Value}

theorem length_le (h : StackBase below prev n base) : below.length ≤ base.length := by
  induction h with
  | first           => simp
  | next _ _ _ ih   => simp only [List.length_append]; omega

theorem drop_next (h : StackBase below prev n base) :
    (base ++ slots ++ [marker]).drop below.length = base.drop below.length ++ slots ++ [marker] := by
  rw [List.append_assoc, List.drop_append_of_le_length h.length_le, List.append_assoc]

theorem plain (h : StackBase below prev n base) (hb : ∀ v ∈ below, v.is_ref = false) :
    ∀ v ∈ base, v.is_ref = false := by
  have hmarker (prev : Int) : ∀ v ∈ [Value.prevStackBoundary prev], v.is_ref = false :=
    fun v hv => List.mem_singleton.mp hv ▸ rfl
  induction h with
  | first => exact fun v hv => (List.mem_append.mp hv).elim (hb v) (hmarker _ v)
  | next _ _ hs ih =>
    intro v hv
    simp only [List.mem_append] at hv
    obtain (hv | hv) | hv := hv
    · exact ih v hv
    · exact hs v hv
    · exact hmarker _ v hv

end StackBase

-- A prompt in the frames above some others: what these own is kept.
def Prompt.Within (low : List Frame) (below : List Value) (prev : Int) (K : Multiset HeapPos)
    (kept : List HeapAllocation) (prompt : Prompt) : Prop :=
  ∃ frame up base slots, prompt.frames = frame :: (up ++ low) ∧ StackBase below prev up.length base ∧
    prompt.store.Holds base slots
      (frame.expr_values ++ (up.flatMap (·.expr_values) ++ base.drop below.length)) K kept

-- A round of a run with well typed operands, whatever the surroundings answer.
def Prompt.Round (env : EvalEnv) (prompt prompt' : Prompt) : Prop :=
  (∀ frame frames, prompt.frames = frame :: frames → frame.WellTyped prompt.store) ∧
    ∃ ctx out, prompt.advance env ctx = .ok out ∧ out.prompt = prompt'

namespace Prompt.Within

variable {low up : List Frame}

theorem plain (h : prompt.Within low below prev K kept) (hbelow : ∀ v ∈ below, v.is_ref = false) :
    prompt.store.Plain := by
  obtain ⟨_, _, _, _, _, hb, h⟩ := h
  refine ⟨fun v hv => ?_, h.owns.plain⟩
  rw [h.stack] at hv
  exact (List.mem_append.mp hv).elim (hb.plain hbelow v) (h.plain v)

theorem of_stays (h : out.Stays (up ++ low) base (up.flatMap (·.expr_values) ++ base.drop below.length) K kept)
    (hb : StackBase below prev up.length base) : out.prompt.Within low below prev K kept := by
  obtain ⟨frame, slots, hf, h⟩ := h
  exact ⟨frame, up, base, slots, hf, hb, h⟩

theorem call {num_args : Nat} (hb : StackBase below prev up.length base)
    (h : store.Holds base slots
      (frame.expr_values ++ (up.flatMap (·.expr_values) ++ base.drop below.length)) K kept)
    {slots' : List Value} (hc : prompt.Calls store frame (up ++ low) num_args slots')
    (ho : prompt.store.Owns (slots' ++ (frame.expr_values.drop num_args ++
      (up.flatMap (·.expr_values) ++ base.drop below.length) ++ slots)) K)
    (hk : ∀ pos ∈ K, prompt.store.heap_regions[pos]? = store.heap_regions[pos]?) :
    prompt.Within low below prev K kept := by
  obtain ⟨callee, hvalues, hframes⟩ := hc.frames
  let frame' : Frame := { frame with expr_values := frame.expr_values.drop num_args }
  let marker := Value.prevStackBoundary store.cur_stack_boundary
  refine ⟨callee, frame' :: up, base ++ slots ++ [marker], slots', hframes, .next hb h.boundary h.plain, ?_⟩
  rw [hvalues, hb.drop_next]
  constructor
  case stack =>
    rw [hc.stack, h.stack, List.append_assoc _ [marker]]
    rfl
  case boundary => rw [hc.boundary, h.stack, List.length_append, List.length_singleton]
  case plain    => exact hc.plain
  case outside =>
    intro v hv
    simp only [List.nil_append, List.flatMap_cons, List.mem_append, List.mem_singleton] at hv
    obtain (hv | hv) | (hv | hv) | hv := hv
    · exact h.outside v (List.mem_append_left _ (List.mem_of_mem_drop hv))
    · exact h.outside v (List.mem_append_right _ (List.mem_append_left _ hv))
    · exact h.outside v (List.mem_append_right _ (List.mem_append_right _ hv))
    · exact Value.outside_of_plain (h.plain v hv)
    · exact hv ▸ trivial
  case kept => exact fun pos hp => (hk pos hp).trans (h.kept pos hp)
  case owns =>
    have ho := (ho.of_none (rfl : marker.get_heap_pos = none)).perm (List.perm_append_singleton _ _).symm
    simpa only [List.nil_append, List.flatMap_cons, List.append_assoc] using ho

theorem of_return {boundary : Nat} {caller : Frame} {slots₀ : List Value}
    (hb : StackBase below prev up.length base) (hlen : base.length = boundary + 1)
    (hs : ∀ v ∈ slots₀, v.is_ref = false)
    (h : store.Holds (base ++ slots₀ ++ [.prevStackBoundary boundary]) slots
      (frame.expr_values ++ (caller.expr_values ++ up.flatMap (·.expr_values) ++
        (base.drop below.length ++ slots₀ ++ [.prevStackBoundary boundary]))) K kept)
    (he : exec_return frame (caller :: (up ++ low)) store = .ok out) :
    out.prompt.Within low below prev K kept := by
  obtain ⟨operand, v, hret, hv, ho, hk⟩ := exec_return_owned h he
  obtain ⟨hstack, hboundary⟩ := hret.restored (by simp)
  refine ⟨{ caller with expr_values := caller.expr_values ++ [v] }, up, base, slots₀, hret.after, hb, ?_⟩
  have hout {u : Value} (hu : u ∈ caller.expr_values ++ up.flatMap (·.expr_values) ++
      (base.drop below.length ++ slots₀ ++ [.prevStackBoundary boundary])) : u.Outside K :=
    h.outside u (List.mem_append_right _ hu)
  constructor
  case stack    => exact hstack
  case boundary => rw [hlen, hboundary, Int.toNat_natCast]
  case plain    => exact hs
  case outside =>
    intro u hu
    simp only [List.mem_append, List.mem_singleton] at hu
    obtain (hu | hu) | hu | hu := hu
    · exact hout (by simp [hu])
    · exact hu ▸ Value.outside_of_plain hv
    · exact hout (List.mem_append_left _ (List.mem_append_right _ hu))
    · exact hout (List.mem_append_right _ (List.mem_append_left _ (List.mem_append_left _ hu)))
  case kept => exact hk
  case owns =>
    -- The boundary is no more, and the value is at the back of the values of the caller.
    have hperm : (v :: (caller.expr_values ++ up.flatMap (·.expr_values) ++
        (base.drop below.length ++ slots₀ ++ [.prevStackBoundary boundary]))).Perm
        (.prevStackBoundary boundary :: (slots₀ ++ (caller.expr_values ++ [v] ++
          (up.flatMap (·.expr_values) ++ base.drop below.length)))) := by
      refine List.perm_iff_count.mpr fun u => ?_
      simp only [List.count_append, List.count_cons, List.count_nil]
      omega
    exact (ho.perm hperm).forget

theorem round (h : prompt.Within low below prev K kept) (hbelow : ∀ v ∈ below, v.is_ref = false)
    (hr : prompt.Round env prompt') : prompt'.Within low below prev K kept ∨
      ∃ callee slots operand v, prompt.Returns callee low below prev slots operand v prompt' ∧
        ∀ pos ∈ K, prompt'.store.heap_regions[pos]? = kept[pos]? := by
  have hplain := (h.plain hbelow).stack
  obtain ⟨frame, up, base, slots, hf, hb, h⟩ := h
  obtain ⟨ht, ctx, out, ha, ho⟩ := hr
  subst ho
  obtain ⟨frames, store⟩ := prompt
  cases hf
  have ht : frame.WellTyped store := ht frame _ rfl
  simp only [Prompt.advance] at ha
  split at ha
  case h_1 =>
    split at ha
    case isTrue => cases ha
    case isFalse =>
      cases ha
      exact .inl ⟨frame, up, base, slots, rfl, hb, h⟩
  case h_2 position _ =>
    split at ha
    case h_1 instruction expr_stack hs =>
      by_cases hc : ∃ this arguments definition,
        instruction = .evalExpr (.call this .userFunction arguments definition)
      case neg =>
        have hc (this arguments definition)
            (he : instruction = .evalExpr (.call this .userFunction arguments definition)) : False :=
          hc ⟨this, arguments, definition, he⟩
        exact .inl (of_stays (Outcome.Stays.eval_instruction h hs ht hc ha) hb)
      case pos =>
        obtain ⟨this, arguments, definition, he⟩ := hc
        subst he
        let frame' : Frame := { frame with expr_stack }
        have hc : call_user_function env frame' (up ++ low) this arguments.length definition store = .ok out :=
          ha
        have ho : store.Owns (frame'.expr_values.take arguments.length ++
            (frame'.expr_values.drop arguments.length ++
              (up.flatMap (·.expr_values) ++ base.drop below.length) ++ slots)) K := by
          refine h.owns.perm (List.perm_append_comm.trans (.of_eq ?_))
          simp only [← List.append_assoc, List.take_append_drop]
          rfl
        obtain ⟨slots', hcalls, ho', hk⟩ := call_user_function_owned hplain ho hc
        have h' : store.Holds base slots
          (frame'.expr_values ++ (up.flatMap (·.expr_values) ++ base.drop below.length)) K kept := h
        exact .inl (call hb h' hcalls ho' hk)
    case h_2 hs =>
      obtain ⟨node, _, ha⟩ := Except.bind_eq_ok.mp ha
      by_cases hret : ∃ this e, node = .statement (.return this e)
      case neg =>
        have hret (this e) (he : node = .statement (.return this e)) : False := hret ⟨this, e, he⟩
        exact .inl (of_stays (Outcome.Stays.exec_stmt h hret ha) hb)
      case pos =>
        obtain ⟨_, _, he⟩ := hret
        subst he
        have ha : exec_return frame (up ++ low) store = .ok out := ha
        cases up with
        | nil =>
          cases hb
          obtain ⟨operand, v, hret, _, _, hk⟩ := exec_return_owned h ha
          exact .inr ⟨frame, slots, operand, v, hret, hk⟩
        | cons caller up =>
          cases hb with
          | next hb hlen hs =>
            rw [hb.drop_next] at h
            exact .inl (Within.of_return hb hlen hs h ha)

end Prompt.Within

theorem Store.new_owns : Store.new.Owns [] 0 where
  nodup := by simp [RegionHeap.inner, Store.new]
  lt    := by simp [RegionHeap.inner, Store.new]
  empty := by simp [Store.new]
  plain := by simp [Store.new]

theorem Prompt.new_within {heap : Heap} {definition : Definition} {monomorph_idx : Nat} {args : ValueGroup}
    (hg : args.Plain) (hn : Prompt.new heap definition monomorph_idx args = .ok prompt) :
    prompt.Within [] [] (-1) 0 [] := by
  obtain ⟨store, hp, he⟩ := Except.bind_eq_ok.mp hn
  cases he
  have hmarker : ∀ v ∈ Store.new.stack, v.is_ref = false := fun v hv => List.mem_singleton.mp hv ▸ rfl
  obtain ⟨pushed, hstack, hplain, hboundary, ho⟩ :=
    ValueGroup.push_values_owned hg (Store.new_owns.of_none rfl) hmarker hg.values hp
  let frame := Frame.new heap definition monomorph_idx
  let room := store.cur_stack_boundary + frame.max_stack_size + 1 - store.stack.length
  refine ⟨frame, [], [.prevStackBoundary (-1)], pushed ++ List.replicate room .unassigned, rfl, .first, ?_⟩
  constructor
  case stack =>
    show store.stack ++ List.replicate room .unassigned = _
    rw [hstack, List.append_assoc]
    rfl
  case boundary => exact (congrArg (· + 1) hboundary).symm
  case plain =>
    intro v hv
    cases List.mem_append.mp hv with
    | inl hv => exact hplain v (hstack ▸ List.mem_append_right _ hv)
    | inr hv => exact List.eq_of_mem_replicate hv ▸ rfl
  case outside => exact fun v hv => List.mem_singleton.mp hv ▸ trivial
  case kept    => simp
  case owns =>
    have hperm : (List.replicate room Value.unassigned ++ store.stack).Perm
        (pushed ++ List.replicate room Value.unassigned ++ [.prevStackBoundary (-1)]) := by
      refine List.perm_iff_count.mpr fun u => ?_
      simp only [hstack, Store.new, List.count_append]
      omega
    have ho := (ho.add_unassigned room).perm hperm
    exact ⟨ho.toLinear, ho.plain⟩

theorem Prompt.advance_newComponent {id : DefinitionId} {monomorph_idx : Nat} {args : ValueGroup}
    (h : prompt.advance env ctx = .ok (.done (.newComponent id monomorph_idx args) prompt')) :
    ∃ values, ValueGroup.from_store prompt.store values = .ok args := by
  have hr := prompt.advance_round env ctx
  rw [h] at hr
  cases hr with
  | @block _ _ _ _ method _ _ _ _ _ _ _ _ hb => cases method <;> cases hb
  | @stmt frame frames store _ node _ _ _ _ hp hs hn _ _ hc =>
    simp only [Prompt.advance, hp, hs, hn, lift_ok, ok_bind] at h
    cases node with
    | endBlock | endIf | endWhile | endSynchronous => cases hc
    | statement stmt =>
      cases stmt with
      | new =>
        obtain ⟨_, _, h⟩ := Except.bind_eq_ok.mp h
        obtain ⟨group, hg, h⟩ := Except.bind_eq_ok.mp h
        obtain ⟨_, _, h⟩ := Except.bind_eq_ok.mp h
        simp only [finish_stmt] at h
        split at h
        case isTrue => cases h
        case isFalse =>
          obtain ⟨_, _, he⟩ := Except.bind_eq_ok.mp h
          cases he
          exact ⟨_, lift_eq_ok.mp hg⟩
      | _ => cases hc

-- The prompts of components that the host starts with ports as arguments, or that others start.
inductive Prompt.Reachable (env : EvalEnv) : Prompt → Prop
  | start {definition : Definition} {monomorph_idx : Nat} {args : List Value} {prompt : Prompt} :
    (∀ v ∈ args, ∃ port, v = .input port ∨ v = .output port) →
    Prompt.new env.heap definition monomorph_idx (.new_stack args) = .ok prompt → Reachable env prompt
  | spawn {prompt prompt' new_prompt : Prompt} {ctx : EvalContext} {id : DefinitionId}
      {definition : Definition} {monomorph_idx : Nat} {args : ValueGroup} :
    Reachable env prompt →
    prompt.advance env ctx = .ok (.done (.newComponent id monomorph_idx args) prompt') →
    Prompt.new env.heap definition monomorph_idx args = .ok new_prompt → Reachable env new_prompt
  | round {prompt prompt' : Prompt} : Reachable env prompt → prompt.Round env prompt' → Reachable env prompt'

theorem Prompt.Reachable.within (h : prompt.Reachable env) :
    prompt.Within [] [] (-1) 0 [] ∨ prompt.frames = [] := by
  induction h with
  | start hports hn =>
    refine .inl (Prompt.new_within ⟨fun v hv => ?_, by simp [ValueGroup.new_stack]⟩ hn)
    obtain ⟨port, hport⟩ := hports v hv
    cases hport with
    | inl he | inr he => exact he ▸ rfl
  | @round prompt prompt' _ hr ih =>
    cases ih with
    | inl h =>
      cases h.round (by simp) hr with
      | inl h => exact .inl h
      | inr h =>
        obtain ⟨_, _, _, _, h, _⟩ := h
        exact .inr h.after
    | inr h =>
      obtain ⟨_, ctx, out, ha, _⟩ := hr
      simp only [Prompt.advance, h] at ha
      cases ha
  | @spawn prompt prompt' ctx _ _ _ args new_prompt _ ha hn ih =>
    cases ih with
    | inl h =>
      obtain ⟨_, hg⟩ := Prompt.advance_newComponent ha
      exact .inl (Prompt.new_within (ValueGroup.from_store_plain (h.plain (by simp)) hg) hn)
    | inr h =>
      simp only [Prompt.advance, h] at ha
      cases ha

-- A round with more frames than this after it.
def Prompt.RoundAbove (env : EvalEnv) (depth : Nat) (prompt prompt' : Prompt) : Prop :=
  prompt.Round env prompt' ∧ depth < prompt'.frames.length

namespace Prompt.Within

variable {low : List Frame}

theorem run (h : prompt.Within low below prev K kept) (hbelow : ∀ v ∈ below, v.is_ref = false)
    (hr : Relation.ReflTransGen (Prompt.RoundAbove env low.length) prompt prompt') :
    prompt'.Within low below prev K kept := by
  induction hr with
  | refl => exact h
  | tail _ hr ih =>
    cases ih.round hbelow hr.1 with
    | inl h => exact h
    | inr h =>
      obtain ⟨_, _, _, _, h, _⟩ := h
      have hlen := hr.2
      rw [h.after, List.length_modifyHead] at hlen
      exact absurd hlen (Nat.lt_irrefl _)

-- In the frames from this one on, nothing is kept for others.
theorem owns (h : Prompt.Within [] [] (-1) 0 [] ⟨frame :: frames, store⟩) :
    store.Owns (store.stack ++ (frame.expr_values ++ frames.flatMap (·.expr_values))) 0 := by
  obtain ⟨_, up, base, slots, hf, _, h⟩ := h
  rw [List.append_nil] at hf
  cases hf
  refine h.owns.perm (List.perm_iff_count.mpr fun u => ?_)
  have hstack : store.stack = base ++ slots := h.stack
  simp only [hstack, List.length_nil, List.drop_zero, List.count_append]
  omega

end Prompt.Within

theorem Prompt.Calls.of_round {caller : Frame} {arguments : List Expression} {id : DefinitionId}
    {rest : List ExprInstruction} (hs : ∀ v ∈ store.stack, v.is_ref = false)
    (ho : store.Owns (caller.expr_values.take arguments.length ++ vs) K)
    (hcaller : caller.expr_stack = .evalExpr (.call this .userFunction arguments id) :: rest)
    (hcall : Prompt.RoundAbove env (frames.length + 1) ⟨caller :: frames, store⟩ prompt) :
    ∃ slots, prompt.Calls store { caller with expr_stack := rest } frames arguments.length slots ∧
      prompt.store.Owns (slots ++ vs) K ∧
      ∀ pos ∈ K, prompt.store.heap_regions[pos]? = store.heap_regions[pos]? := by
  obtain ⟨⟨_, ctx, out, ha, hout⟩, hdepth⟩ := hcall
  subst hout
  simp only [Prompt.advance] at ha
  split at ha
  case h_1 =>
    split at ha
    case isTrue => cases ha
    case isFalse =>
      cases ha
      exact absurd hdepth (Nat.lt_irrefl _)
  case h_2 =>
    split at ha
    case h_1 instruction expr_stack hs' =>
      cases hcaller.symm.trans hs'
      let caller' : Frame := { caller with expr_stack := rest }
      have ho : store.Owns (caller'.expr_values.take arguments.length ++ vs) K := ho
      exact call_user_function_owned hs ho ha
    case h_2 hs' => cases hcaller.symm.trans hs'

-- The callee has what is below its frame kept for others.
theorem Prompt.Calls.within (h : prompt.Calls store frame frames n slots)
    (ho : prompt.store.Owns (slots ++ []) K)
    (hk : ∀ pos ∈ K, prompt.store.heap_regions[pos]? = store.heap_regions[pos]?) :
    prompt.Within ({ frame with expr_values := frame.expr_values.drop n } :: frames) store.stack
      store.cur_stack_boundary K store.heap_regions := by
  obtain ⟨callee, hvalues, hframes⟩ := h.frames
  let marker := Value.prevStackBoundary store.cur_stack_boundary
  refine ⟨callee, [], store.stack ++ [marker], slots, hframes, .first, ?_⟩
  rw [hvalues, List.drop_left]
  constructor
  case stack =>
    rw [h.stack, List.append_assoc]
    rfl
  case boundary => rw [h.boundary, List.length_append, List.length_singleton]
  case plain    => exact h.plain
  case outside  => exact fun v hv => List.mem_singleton.mp hv ▸ trivial
  case kept     => exact hk
  case owns =>
    have ho := ho.of_none (rfl : marker.get_heap_pos = none)
    rw [List.append_nil] at ho
    exact ho.perm (List.perm_append_singleton _ _).symm

-- A call of a function of the user, at whatever depth, that returns after any number of rounds of the
-- callee and its own callees. The caller goes on with its own part of the stack, and with what the
-- operand of the return statement stands for in place of the arguments.
theorem Prompt.call_preserves_frame {caller : Frame} {arguments : List Expression} {id : DefinitionId}
    {rest : List ExprInstruction} {called returning returned : Prompt}
    (hreach : Prompt.Reachable env ⟨caller :: frames, store⟩)
    (hcaller : caller.expr_stack = .evalExpr (.call this .userFunction arguments id) :: rest)
    (hcall : Prompt.RoundAbove env (frames.length + 1) ⟨caller :: frames, store⟩ called)
    (hrun : Relation.ReflTransGen (Prompt.RoundAbove env (frames.length + 1)) called returning)
    (hreturn : returning.Round env returned) (hlen : returned.frames.length = frames.length + 1) :
    let waiting : Frame := { caller with
      expr_stack := rest, expr_values := caller.expr_values.drop arguments.length }
    arguments.length ≤ caller.expr_values.length ∧ ∃ callee slots operand v,
      returning.Returns callee (waiting :: frames) store.stack store.cur_stack_boundary slots operand v
        returned ∧
      returned.frames = { waiting with expr_values := waiting.expr_values ++ [v] } :: frames ∧
      returned.store.stack = store.stack ∧
      returned.store.cur_stack_boundary = store.cur_stack_boundary ∧
      ∃ ts F, store.Reps (store.stack ++ (waiting :: frames).flatMap (·.expr_values)) ts F ∧
        returned.store.Reps (store.stack ++ (waiting :: frames).flatMap (·.expr_values)) ts F := by
  intro waiting
  have hwithin : Prompt.Within [] [] (-1) 0 [] ⟨caller :: frames, store⟩ := by
    cases hreach.within with
    | inl h => exact h
    | inr h => cases h
  have hplain := (hwithin.plain (by simp)).stack
  -- What the stack and the operands that stay own is kept during the call.
  have howns : store.Owns (store.stack ++ (waiting :: frames).flatMap (·.expr_values) ++
      caller.expr_values.take arguments.length) 0 := by
    refine hwithin.owns.perm (List.perm_iff_count.mpr fun u => ?_)
    have hsplit := congrArg (List.count u) (List.take_append_drop arguments.length caller.expr_values)
    simp only [List.count_append] at hsplit
    simp only [waiting, List.flatMap_cons, List.count_append]
    omega
  obtain ⟨ts, F, htrees⟩ := howns.exists_reps
  have hargs : store.Owns (caller.expr_values.take arguments.length ++ []) F := by
    have hkeep := howns.keep htrees
    rwa [add_zero, ← List.append_nil (List.take _ _)] at hkeep
  obtain ⟨slots₀, hcalls, ho, hk⟩ := Prompt.Calls.of_round hplain hargs hcaller hcall
  cases ((hcalls.within ho hk).run hplain hrun).round hplain hreturn with
  | inl h =>
    obtain ⟨_, up, _, _, hf, _⟩ := h
    rw [hf, List.length_cons, List.length_append, List.length_cons] at hlen
    omega
  | inr h =>
    obtain ⟨callee, slots, operand, v, hret, hkept⟩ := h
    obtain ⟨hstack, hboundary⟩ := hret.restored (by simp)
    exact ⟨hcalls.num_args, callee, slots, operand, v, hret, hret.after, hstack, hboundary, ts, F, htrees,
      htrees.congr hkept⟩

end

-- `func bool[] identity(bool[] x) { return x; }` and `primitive p() { identity({ true }); }`.
def Definition.identity : Definition where
  this       := 0
  kind       := .function
  parameters := [0]
  body       := ⟨0, [.return 1 (.variable 0 "x")], 2⟩

def Definition.calls_identity : Definition where
  this       := 1
  kind       := .primitive
  parameters := []
  body       := ⟨3, [.expression 4 (.call 1 .userFunction [.literal 2 .array [.literal 3 .true []]] 0)], 5⟩

def LinkCtx.of_identity : LinkCtx where
  types id       := if id = 0 then .function 1 else .component 0
  has_symbol _ _ := false

def EvalEnv.identity : EvalEnv where
  build            := ⟨false, 0⟩
  definitions id   := if id = 0 then some .identity else some .calls_identity
  arena            := BlockOf.nodes Definition.identity.body ++ BlockOf.nodes Definition.calls_identity.body
  heap             := (visit_module .of_identity [.identity, .calls_identity]
    (.parsed (.parsed [⟨"x", 0, 0⟩]))).toOption.getD (.parsed (.parsed []))
  expr_data _ _ _  := some ⟨[], 0⟩

def Expression.calls_identity : Expression :=
  .call 1 .userFunction [.literal 2 .array [.literal 3 .true []]] 0

-- The frame of the component at the call, and that of the function at the return statement.
def Frame.calls_identity (expr_stack : List ExprInstruction) (expr_values : List Value) : Frame :=
  { Frame.new EvalEnv.identity.heap .calls_identity 0 with position := some 4, expr_stack, expr_values }

def Frame.identity (expr_stack : List ExprInstruction) (expr_values : List Value) : Frame :=
  { Frame.new EvalEnv.identity.heap .identity 0 with position := some 1, expr_stack, expr_values }

-- The component from the start on, round by round.
def Prompt.calls_identity : Nat → Prompt
  | 0 => ⟨[Frame.new EvalEnv.identity.heap .calls_identity 0], .new⟩
  | 1 => ⟨[.calls_identity [.evalExpr (.literal 3 .true []), .pushValToFront,
    .evalExpr (.literal 2 .array [.literal 3 .true []]), .pushValToFront, .evalExpr .calls_identity] []], .new⟩
  | 2 => ⟨[.calls_identity [.pushValToFront, .evalExpr (.literal 2 .array [.literal 3 .true []]),
    .pushValToFront, .evalExpr .calls_identity] [.bool true]], .new⟩
  | 3 => ⟨[.calls_identity [.evalExpr (.literal 2 .array [.literal 3 .true []]), .pushValToFront,
    .evalExpr .calls_identity] [.bool true]], .new⟩
  | 4 => ⟨[.calls_identity [.pushValToFront, .evalExpr .calls_identity] [.array 0]],
    { Store.new with heap_regions := [[.bool true]] }⟩
  | 5 => ⟨[.calls_identity [.evalExpr .calls_identity] [.array 0]],
    { Store.new with heap_regions := [[.bool true]] }⟩
  | 6 => ⟨[Frame.new EvalEnv.identity.heap .identity 0, .calls_identity [] []],
    ⟨[.prevStackBoundary (-1), .prevStackBoundary 0, .array 0], 1, [[.bool true]], []⟩⟩
  | 7 => ⟨[.identity [.evalExpr (.variable 0 "x")] [], .calls_identity [] []],
    ⟨[.prevStackBoundary (-1), .prevStackBoundary 0, .array 0], 1, [[.bool true]], []⟩⟩
  | 8 => ⟨[.identity [] [.ref (.stack 0)], .calls_identity [] []],
    ⟨[.prevStackBoundary (-1), .prevStackBoundary 0, .array 0], 1, [[.bool true]], []⟩⟩
  | _ => ⟨[.calls_identity [] [.array 1]], ⟨[.prevStackBoundary (-1)], 0, [[], [.bool true]], [0]⟩⟩

theorem Prompt.calls_identity_round {n : Nat} (hn : n < 9) :
    (Prompt.calls_identity n).Round .identity (Prompt.calls_identity (n + 1)) :=
  match n with
  | 0 | 1 | 2 | 3 | 4 | 5 | 6 | 7 | 8 =>
    ⟨by rintro _ _ ⟨⟩ _ _ _ _ _ _ ⟨⟩, .none, _, rfl, rfl⟩

theorem Prompt.calls_identity_reachable {n : Nat} (hn : n ≤ 9) :
    (Prompt.calls_identity n).Reachable .identity := by
  induction n with
  | zero      => exact .start (List.forall_mem_nil _) rfl
  | succ n ih => exact (ih (Nat.le_of_lt hn)).round (calls_identity_round hn)

-- The array that is returned is another one, in a region of its own.
theorem Prompt.call_preserves_frame_identity :
    ∃ callee slots operand v, (Prompt.calls_identity 8).Returns callee [.calls_identity [] []]
      [.prevStackBoundary (-1)] 0 slots operand v (.calls_identity 9) := by
  have hcall := Prompt.calls_identity_round (by decide : 5 < 9)
  have hblock := Prompt.calls_identity_round (by decide : 6 < 9)
  have hvariable := Prompt.calls_identity_round (by decide : 7 < 9)
  have hreturn := Prompt.calls_identity_round (by decide : 8 < 9)
  have hrun : Relation.ReflTransGen (Prompt.RoundAbove .identity 1) (.calls_identity 6) (.calls_identity 8) :=
    .head ⟨hblock, by decide⟩ (.single ⟨hvariable, by decide⟩)
  obtain ⟨_, callee, slots, operand, v, h, _⟩ := Prompt.call_preserves_frame
    (calls_identity_reachable (by decide : 5 ≤ 9)) rfl ⟨hcall, by decide⟩ hrun hreturn rfl
  exact ⟨callee, slots, operand, v, h⟩

end Reowolf
