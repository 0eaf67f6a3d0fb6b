import Reowolf.Protocol.ComponentState
import Reowolf.Protocol.PromptControl
import Reowolf.Runtime.ProtoComponent

namespace Reowolf

-- The call that the next round evaluates, with the values at hand.
def Prompt.next_call (prompt : Prompt) : Option (Method × List Value) :=
  match prompt.frames with
  | [] => none
  | frame :: _ =>
    match frame.position, frame.expr_stack with
    | some _, .evalExpr (.call _ method _ _) :: _ => some (method, frame.expr_values)
    | _, _                                        => none

def Store.payload (store : Store) (pos : HeapPos) : Except Fault Payload := do
  let values ← store.region pos
  let bytes ← (values.mapM (Value.as_integer .u8) : Except Fault (List (Integer .u8)))
  .ok (bytes.map fun byte => UInt8.ofBitVec byte)

-- The port and the payload of the put that the next round evaluates. A message of other values than
-- bytes has no payload.
def Prompt.next_put (prompt : Prompt) : Option (PortId × Option Payload) :=
  match prompt.next_call with
  | some (.put, port_value :: msg_value :: _) =>
    match prompt.store.maybe_read_ref port_value, prompt.store.maybe_read_ref msg_value with
    | .ok (.output port), .ok (.message pos) => some (port, (prompt.store.payload pos).toOption)
    | _, _                                   => none
  | _ => none

-- The port of the get that the next round evaluates.
def Prompt.next_get (prompt : Prompt) : Option PortId :=
  match prompt.next_call with
  | some (.get, port_value :: _) =>
    match prompt.store.maybe_read_ref port_value with
    | .ok (.input port) => some port
    | _                 => none
  | _ => none

-- The runtime panics if it does not know the port, which it then does when it is blocked on it.
def SyncProtoContext.firing (ctx : SyncProtoContext) (port : PortId) : Option Bool := do
  let var ← ctx.port_info.spec_var_for port
  let val ← ctx.predicate.query var
  return val.is_firing

-- A message that is read is noted, as `read_msg` does.
def ProtoComponentBranchInner.after_round (inner : ProtoComponentBranchInner) (prompt : Prompt) :
    ProtoComponentBranchInner :=
  match prompt.next_get with
  | some port => if (inner.inbox.get? port).isSome then inner.noting port else inner
  | none      => inner

-- A round of the loops of `sync_run` and `Prompt::step` for a branch.
def ProtoComponentBranch.round (env : EvalEnv) (ctx : SyncProtoContext)
    (branch : ProtoComponentBranch Prompt) :
    Except Panic (Option SyncBlocker × ProtoComponentBranch Prompt) := do
  let (blocker, prompt) ← sync_round env ctx.firing branch.inner.inbox.get?
    (fun port => decide (port ∈ branch.inner.did_put_or_get)) branch.state
  .ok (blocker, { branch with state := prompt, inner := branch.inner.after_round branch.state })

-- What a put evaluates to: it is done, or it is handed out with its payload and is left as it is.
inductive PutRound (prompt : Prompt) (port : PortId) (payload : Option Payload) :
    Bool → Option SyncBlocker → Prompt → Prop
  | done (prompt') : PutRound prompt port payload true none prompt'
  | puts {bytes} :
    payload = some bytes → PutRound prompt port payload false (some (.putMsg port bytes)) prompt

section

variable {env : EvalEnv} {is_firing : PortId → Option Bool} {read_msg : PortId → Option Payload}
variable {did_put_or_get : PortId → Bool} {prompt prompt' : Prompt} {blocker : Option SyncBlocker}
variable {port : PortId} {payload : Option Payload}

theorem Prompt.next_call_eq_some {method : Method} {values : List Value} :
    prompt.next_call = some (method, values) ↔
      ∃ frame frames this arguments definition expr_stack, prompt.frames = frame :: frames ∧
        frame.position.isSome ∧
        frame.expr_stack = .evalExpr (.call this method arguments definition) :: expr_stack ∧
        frame.expr_values = values := by
  obtain ⟨frames, store⟩ := prompt
  cases frames with
  | nil => simp [next_call]
  | cons frame frames =>
    simp only [next_call, List.cons.injEq]
    constructor
    case mp =>
      intro h
      split at h
      case h_2 => cases h
      case h_1 hp hs =>
        cases h
        exact ⟨_, _, _, _, _, _, ⟨rfl, rfl⟩, by simp [hp], hs, rfl⟩
    case mpr =>
      rintro ⟨_, _, _, _, _, _, ⟨hf, _⟩, hp, hs, hv⟩
      subst hf
      obtain ⟨id, hp⟩ := Option.isSome_iff_exists.mp hp
      simp [hp, hs, hv]

theorem Prompt.next_put_eq_some :
    prompt.next_put = some (port, payload) ↔
      ∃ port_value msg_value values pos,
        prompt.next_call = some (.put, port_value :: msg_value :: values) ∧
        prompt.store.maybe_read_ref port_value = .ok (.output port) ∧
        prompt.store.maybe_read_ref msg_value = .ok (.message pos) ∧
        payload = (prompt.store.payload pos).toOption := by
  constructor
  case mp =>
    intro h
    simp only [next_put] at h
    split at h
    case h_2 => cases h
    case h_1 hc =>
      split at h
      case h_2 => cases h
      case h_1 hport hmsg =>
        cases h
        exact ⟨_, _, _, _, hc, hport, hmsg, rfl⟩
  case mpr =>
    rintro ⟨_, _, _, _, hc, hport, hmsg, hpayload⟩
    simp [next_put, hc, hport, hmsg, hpayload]

theorem Prompt.advance_next_call {method : Method} {values : List Value}
    (h : prompt.next_call = some (method, values)) :
    ∃ frame frames this arguments definition expr_stack, prompt.frames = frame :: frames ∧
      frame.expr_stack = .evalExpr (.call this method arguments definition) :: expr_stack ∧
      frame.expr_values = values ∧ ∀ env ctx, prompt.advance env ctx =
        eval_call env ctx { frame with expr_stack } frames this method arguments definition
          prompt.store := by
  obtain ⟨frame, frames, this, arguments, definition, expr_stack, hf, hp, hs, hv⟩ :=
    Prompt.next_call_eq_some.mp h
  obtain ⟨id, hp⟩ := Option.isSome_iff_exists.mp hp
  refine ⟨frame, frames, this, arguments, definition, expr_stack, hf, hs, hv, fun env ctx => ?_⟩
  simp only [Prompt.advance, hf, hp, hs]
  rfl

variable (env is_firing read_msg did_put_or_get) in
theorem Prompt.advance_put {port_value msg_value : Value} {values : List Value} {pos : HeapPos}
    (hc : prompt.next_call = some (.put, port_value :: msg_value :: values))
    (hport : prompt.store.maybe_read_ref port_value = .ok (.output port))
    (hmsg : prompt.store.maybe_read_ref msg_value = .ok (.message pos)) :
    (did_put_or_get port = false →
      prompt.advance env (.sync is_firing read_msg did_put_or_get) =
        .ok (.done (.put (.output port) (.message pos)) prompt)) ∧
    (did_put_or_get port = true → ∀ out,
      prompt.advance env (.sync is_firing read_msg did_put_or_get) = .ok out →
        ∃ prompt', out = .more prompt') := by
  obtain ⟨frame, frames, this, arguments, definition, expr_stack, hf, hs, hv, ha⟩ :=
    Prompt.advance_next_call hc
  have hdid : (EvalContext.sync is_firing read_msg did_put_or_get).did_put (.output port) =
      .ok (did_put_or_get port) := rfl
  rw [ha]
  simp only [eval_call, eval_put, hv, pop_front, hport, hmsg, lift_ok, ok_bind, hdid]
  constructor
  case left =>
    intro hd
    simp only [hd]
    cases prompt
    cases frame
    subst hf hs hv
    rfl
  case right =>
    intro hd out ho
    simp only [hd, if_true, Except.bind_eq_ok, lift_eq_ok] at ho
    obtain ⟨store', _, ho⟩ := ho
    cases ho
    exact ⟨_, rfl⟩

theorem toOption_eq_some {α : Type} {x : Except Fault α} {a : α} :
    x.toOption = some a ↔ x = .ok a := by
  cases x <;> simp [Except.toOption]

theorem sync_turn_put {store : Store} {pos : HeapPos} :
    sync_turn store (.put (.output port) (.message pos)) = .ok blocker ↔
      ∃ bytes, store.payload pos = .ok bytes ∧ blocker = some (.putMsg port bytes) := by
  simp only [sync_turn, Value.port, ok_bind, Store.payload, Except.bind_eq_ok, lift_eq_ok]
  constructor
  case mp =>
    rintro ⟨values, hv, bytes, hb, h⟩
    cases h
    exact ⟨_, ⟨values, hv, bytes, hb, rfl⟩, rfl⟩
  case mpr =>
    rintro ⟨_, ⟨values, hv, bytes, hb, h⟩, hblocker⟩
    cases h
    exact ⟨values, hv, bytes, hb, congrArg Except.ok hblocker.symm⟩

theorem sync_round_put (hp : prompt.next_put = some (port, payload))
    (hr : sync_round env is_firing read_msg did_put_or_get prompt = .ok (blocker, prompt')) :
    PutRound prompt port payload (did_put_or_get port) blocker prompt' := by
  obtain ⟨_, _, _, pos, hc, hport, hmsg, hpayload⟩ := Prompt.next_put_eq_some.mp hp
  have hput := prompt.advance_put env is_firing read_msg did_put_or_get hc hport hmsg
  simp only [sync_round, Except.bind_eq_ok] at hr
  obtain ⟨out, ha, hr⟩ := hr
  cases hd : did_put_or_get port with
  | true =>
    obtain ⟨next, ho⟩ := hput.right hd out ha
    subst ho
    cases hr
    exact .done prompt'
  | false =>
    cases (hput.left hd).symm.trans ha
    simp only [Except.bind_eq_ok] at hr
    obtain ⟨blocker', ht, hr⟩ := hr
    cases hr
    obtain ⟨bytes, hb, ht⟩ := sync_turn_put.mp ht
    subst ht
    exact .puts (hpayload.trans (toOption_eq_some.mpr hb))

theorem Method.eq_put {method : Method} {value message : Value}
    (h : method.blocks (.put value message)) : method = .put := by
  cases method with
  | put => rfl
  | _   => cases h

theorem Node.not_continues_put {node : Node} {value message : Value} :
    ¬node.continues (.put value message) := by
  intro h
  cases node with
  | statement stmt =>
    cases stmt with
    | new =>
      obtain ⟨_, _, h⟩ := h
      cases h
    | _ => cases h
  | _ => cases h

theorem Prompt.next_call_of_put {ctx : EvalContext} {value message : Value}
    (ha : prompt.advance env ctx = .ok (.done (.put value message) prompt')) :
    ∃ values, prompt.next_call = some (.put, values) := by
  have hround := prompt.advance_round env ctx
  rw [ha] at hround
  generalize hc : EvalContinuation.put value message = continuation at hround
  cases hround
  case terminal | inconsistent | call | «return» | leave => cases hc
  case block hp hs _ hb =>
    subst hc
    cases Method.eq_put hb
    exact ⟨_, Prompt.next_call_eq_some.mpr ⟨_, _, _, _, _, _, rfl, hp, hs, rfl⟩⟩
  case stmt hn =>
    subst hc
    cases Node.not_continues_put hn

-- A message is only handed out by a put.
theorem Prompt.next_put_of_advance {value message : Value}
    (ha : prompt.advance env (.sync is_firing read_msg did_put_or_get) =
      .ok (.done (.put value message) prompt')) :
    ∃ port pos, value = .output port ∧ message = .message pos ∧
      prompt.next_put = some (port, (prompt.store.payload pos).toOption) ∧
      prompt'.store = prompt.store := by
  obtain ⟨values, hc⟩ := Prompt.next_call_of_put ha
  obtain ⟨frame, frames, this, arguments, definition, expr_stack, hf, hs, hv, ha'⟩ :=
    Prompt.advance_next_call hc
  rw [ha'] at ha
  match values with
  | [] | [_] => 
    simp [eval_call, eval_put, hv, pop_front, lift_eq_ok, Except.bind_eq_ok] at ha
  | port_value :: msg_value :: values =>
    simp only [eval_call, eval_put, hv, pop_front, Except.bind_eq_ok, lift_eq_ok] at ha
    obtain ⟨_, hpop, port, hport, _, hpop', msg, hmsg, ha⟩ := ha
    cases hpop
    cases hpop'
    cases msg with
    | message pos =>
      simp only [Except.bind_eq_ok] at ha
      obtain ⟨did_put, hdid, ha⟩ := ha
      cases port with
      | output port =>
        cases did_put with
        | true =>
          simp only [if_true, Except.bind_eq_ok] at ha
          obtain ⟨_, _, ha⟩ := ha
          cases ha
        | false =>
          cases ha
          exact ⟨port, pos, rfl, rfl,
            Prompt.next_put_eq_some.mpr ⟨_, _, _, pos, hc, hport, hmsg, rfl⟩, rfl⟩
      | _ => cases hdid
    | _ => cases ha

theorem next_put_of_putMsg {bytes : Payload}
    (hr : sync_round env is_firing read_msg did_put_or_get prompt =
      .ok (some (.putMsg port bytes), prompt')) :
    prompt.next_put = some (port, some bytes) := by
  simp only [sync_round, Except.bind_eq_ok] at hr
  obtain ⟨out, ha, hr⟩ := hr
  cases out with
  | more => cases hr
  | done continuation next =>
    simp only [Except.bind_eq_ok] at hr
    obtain ⟨blocker, ht, hr⟩ := hr
    cases hr
    cases continuation with
    | put value message =>
      obtain ⟨port', pos, hvalue, hmsg, hnext, hstore⟩ := Prompt.next_put_of_advance ha
      subst hvalue hmsg
      obtain ⟨bytes', hb, ht⟩ := sync_turn_put.mp ht
      cases ht
      rw [hnext, ← hstore, toOption_eq_some.mpr hb]
    | blockFires value | blockGet value =>
      simp only [sync_turn, Except.bind_eq_ok] at ht
      obtain ⟨_, _, ht⟩ := ht
      cases ht
    | _ => cases ht

end

namespace ProtoComponentBranch

variable {env : EvalEnv} {ctx : SyncProtoContext} {branch branch' : ProtoComponentBranch Prompt}
variable {blocker : Option SyncBlocker} {port : PortId} {payload : Option Payload}

theorem round_eq_ok : branch.round env ctx = .ok (blocker, branch') ↔
    sync_round env ctx.firing branch.inner.inbox.get?
      (fun port => decide (port ∈ branch.inner.did_put_or_get)) branch.state =
        .ok (blocker, branch'.state) ∧
    branch'.inner = branch.inner.after_round branch.state ∧ branch'.ended = branch.ended := by
  simp only [round, Except.bind_eq_ok]
  constructor
  case mp =>
    rintro ⟨_, hs, h⟩
    cases h
    exact ⟨hs, rfl, rfl⟩
  case mpr =>
    rintro ⟨hs, hinner, hended⟩
    refine ⟨_, hs, ?_⟩
    rw [← hinner, ← hended]

-- A put is evaluated to its end if its port is noted, and else it is handed out.
theorem round_put (hp : branch.state.next_put = some (port, payload))
    (hr : branch.round env ctx = .ok (blocker, branch')) :
    (port ∈ branch.inner.did_put_or_get ∧ blocker = none) ∨
      ∃ bytes, port ∉ branch.inner.did_put_or_get ∧ payload = some bytes ∧
        blocker = some (.putMsg port bytes) ∧ branch'.state = branch.state := by
  obtain ⟨hs, _, _⟩ := round_eq_ok.mp hr
  have hround := sync_round_put hp hs
  generalize hd : decide (port ∈ branch.inner.did_put_or_get) = did_put at hround
  generalize branch'.state = state at hround ⊢
  cases hround with
  | done => exact .inl ⟨of_decide_eq_true hd, rfl⟩
  | puts hb => exact .inr ⟨_, of_decide_eq_false hd, hb, rfl, rfl⟩

end ProtoComponentBranch

-- A branch of a component in its synchronous block, with what has become of the puts in it.
structure BranchRun where
  predicate : Predicate
  branch    : ProtoComponentBranch Prompt
  evaluated : List (PortId × Option Payload)   -- the puts that have been evaluated to their end
  delivered : List (PortId × SendPayloadMsg)   -- the messages that have been pushed, for their getters
  awaited   : Bool                             -- a message has been pushed in the last step

namespace BranchRun

-- The branch with which speculation begins.
def initial (prompt : Prompt) : BranchRun where
  predicate := ∅
  branch    := ⟨prompt, ∅, false⟩
  evaluated := []
  delivered := []
  awaited   := false

-- What happens to a branch in the hands of `drain_branches_to_blocked` and `feed_msg`, where these
-- work with maps that have no other branches. Where there is another branch with the same predicate,
-- the two are merged.
inductive Step (env : EvalEnv) (port_info : PortInfoMap) : BranchRun → BranchRun → Prop
  | round {r : BranchRun} {branch} :
    r.branch.ended = false →
    r.branch.round env ⟨port_info, r.predicate⟩ = .ok (none, branch) →
    Step env port_info r { r with
      branch    := branch
      evaluated := r.evaluated ++ r.branch.state.next_put.toList
      awaited   := false }
  | handled {r : BranchRun} {cid order rctx rctx' cd blocker branch predicate' branch' pushed} :
    r.branch.ended = false →
    rctx.ips.port_info = port_info →
    r.branch.round env ⟨port_info, r.predicate⟩ = .ok (some blocker, branch) →
    BranchingProtoComponent.handle_blocker cid order rctx ∅ r.predicate branch blocker =
      .ok (rctx', cd) →
    cd.swap.get? predicate' = some branch' ∨ cd.output.get? predicate' = some branch' →
    rctx'.payload_inbox = pushed ++ rctx.payload_inbox →
    Step env port_info r { r with
      predicate := predicate'
      branch    := branch'
      delivered := r.delivered ++ pushed
      awaited   := !pushed.isEmpty }
  | fed {r : BranchRun} {getter msg cd predicate' branch'} :
    BranchingProtoComponent.visit_branch getter msg ∅ r.predicate r.branch = .ok cd →
    cd.input.get? predicate' = some branch' →
    Step env port_info r { r with predicate := predicate', branch := branch' }
  | merged {r : BranchRun} (branch : ProtoComponentBranch Prompt) :
    Step env port_info r { r with branch := r.branch.merge branch }

-- A put is evaluated for the first time, and its port is noted as one that a message has already been
-- put on or gotten from.
def Skips (r : BranchRun) : Prop :=
  r.branch.ended = false ∧ r.awaited = false ∧
    ∃ port payload, r.branch.state.next_put = some (port, payload) ∧
      port ∈ r.branch.inner.did_put_or_get

-- The getter and the payload of every put that has been evaluated.
def expected (port_info : PortInfoMap) (r : BranchRun) : List (Option PortId × Option Payload) :=
  r.evaluated.map fun (port, payload) => ((port_info.map.get? port).bind (·.peer), payload)

def received (r : BranchRun) : List (Option PortId × Option Payload) :=
  r.delivered.map fun (getter, msg) => (some getter, some msg.payload)

-- For each of the puts there is one message.
def EachDelivered (port_info : PortInfoMap) (r : BranchRun) : Prop :=
  (r.expected port_info).Perm r.received

instance (port_info : PortInfoMap) (r : BranchRun) : Decidable (r.EachDelivered port_info) :=
  inferInstanceAs (Decidable (List.Perm _ _))

-- All that a step can do to the puts of a branch.
inductive Case (port_info : PortInfoMap) (r r' : BranchRun) : Prop
  | evaluates {port payload} :
    r.branch.ended = false →
    r.branch.state.next_put = some (port, payload) →
    port ∈ r.branch.inner.did_put_or_get →
    r'.evaluated = r.evaluated ++ [(port, payload)] →
    r'.delivered = r.delivered →
    r'.awaited = false →
    r'.branch.ended = false →
    Case port_info r r'
  | delivers {port bytes getter} :
    r.branch.state.next_put = some (port, some bytes) →
    port ∉ r.branch.inner.did_put_or_get →
    (port_info.map.get? port).bind (·.peer) = some getter →
    r'.branch.state = r.branch.state →
    port ∈ r'.branch.inner.did_put_or_get →
    r'.evaluated = r.evaluated →
    r'.delivered = r.delivered ++ [(getter, ⟨r'.predicate, bytes⟩)] →
    r'.awaited = true →
    r'.branch.ended = false →
    Case port_info r r'
  | works :
    r.branch.state.next_put = none →
    r'.evaluated = r.evaluated →
    r'.delivered = r.delivered →
    r'.awaited = false →
    Case port_info r r'
  | waits :
    r'.branch.state = r.branch.state →
    r'.branch.inner.did_put_or_get = r.branch.inner.did_put_or_get →
    r'.branch.ended = r.branch.ended →
    r'.evaluated = r.evaluated →
    r'.delivered = r.delivered →
    r'.awaited = r.awaited →
    Case port_info r r'

variable {env : EvalEnv} {port_info : PortInfoMap} {r r' : BranchRun} {path : List BranchRun}

-- Only a put pushes a message.
theorem pushed_eq_nil {cid : ComponentId} {order : List PortId} {rctx rctx' : RoundCtx}
    {cd cd' : CyclicDrainer Prompt} {predicate : Predicate} {branch : ProtoComponentBranch Prompt}
    {blocker : SyncBlocker} {pushed : List (PortId × SendPayloadMsg)}
    (hb : ∀ port bytes, blocker ≠ .putMsg port bytes)
    (h : BranchingProtoComponent.Handled cid order rctx cd predicate branch blocker rctx' cd')
    (hp : rctx'.payload_inbox = pushed ++ rctx.payload_inbox) : pushed = [] := by
  cases h with
  | silent | puts => exact absurd rfl (hb _ _)
  | ends _ _ hs =>
    rw [hs.rest] at hp
    exact List.append_left_eq_self.mp hp.symm
  | _ => exact List.append_left_eq_self.mp hp.symm

theorem get?_insert_branch_merging {predicate predicate' : Predicate}
    {branch branch' : ProtoComponentBranch Prompt}
    (h : (BranchingProtoComponent.insert_branch_merging ∅ predicate branch).get? predicate' =
      some branch') : predicate' = predicate ∧ branch' = branch := by
  simp only [BranchingProtoComponent.insert_branch_merging, HashMap.get?_insertWith,
    HashMap.get?_empty] at h
  split at h
  case isTrue hp =>
    cases h
    exact ⟨hp, rfl⟩
  case isFalse => cases h

theorem feed_msg_eq_ok {branch branch' : ProtoComponentBranch Prompt} {getter : PortId}
    {payload : Payload} (h : branch.feed_msg getter payload = .ok branch') :
    branch'.state = branch.state ∧
      branch'.inner.did_put_or_get = branch.inner.did_put_or_get ∧ branch'.ended = branch.ended := by
  simp only [ProtoComponentBranch.feed_msg] at h
  split at h
  case h_1 =>
    cases h
    exact ⟨rfl, rfl, rfl⟩
  case h_2 =>
    obtain ⟨_, _, h⟩ := SyncResult.bind_eq_ok.mp h
    cases h
    exact ⟨rfl, rfl, rfl⟩

-- A branch that receives a message is only given more of an inbox.
theorem visit_branch_input {getter : PortId} {msg : SendPayloadMsg} {cd : CyclicDrainer Prompt}
    {predicate predicate' : Predicate} {branch branch' : ProtoComponentBranch Prompt}
    (h : BranchingProtoComponent.visit_branch getter msg ∅ predicate branch = .ok cd)
    (hi : cd.input.get? predicate' = some branch') :
    branch'.state = branch.state ∧
      branch'.inner.did_put_or_get = branch.inner.did_put_or_get ∧ branch'.ended = branch.ended := by
  simp only [BranchingProtoComponent.visit_branch] at h
  split at h
  case isTrue =>
    cases h
    cases hi
  case isFalse =>
    split at h
    case h_1 =>
      cases h
      cases hi
    all_goals
      obtain ⟨fed, hf, h⟩ := SyncResult.bind_eq_ok.mp h
      cases h
      obtain ⟨_, hb⟩ := get?_insert_branch_merging hi
      exact hb ▸ feed_msg_eq_ok hf

theorem Step.case (h : Step env port_info r r') : Case port_info r r' := by
  cases h with
  | round hend hr =>
    cases hput : r.branch.state.next_put with
    | none => exact .works hput (by simp) rfl rfl
    | some put =>
      cases ProtoComponentBranch.round_put hput hr with
      | inl hdid =>
        obtain ⟨_, _, hended⟩ := ProtoComponentBranch.round_eq_ok.mp hr
        exact .evaluates hend hput hdid.left (by simp) rfl rfl (hended.trans hend)
      | inr hputs =>
        obtain ⟨_, _, _, hn, _⟩ := hputs
        cases hn
  | handled hend hport hr hh hcd hpushed =>
    have hh := BranchingProtoComponent.handle_blocker_cases hh
    cases hput : r.branch.state.next_put with
    | none =>
      have hnil := pushed_eq_nil (fun port bytes hb => ?_) hh hpushed
      · subst hnil
        exact .works hput rfl (by simp) rfl
      · subst hb
        have hnext := next_put_of_putMsg (ProtoComponentBranch.round_eq_ok.mp hr).left
        rw [hput] at hnext
        cases hnext
    | some put =>
      obtain ⟨port, payload⟩ := put
      cases ProtoComponentBranch.round_put hput hr with
      | inl hdid => cases hdid.right
      | inr hputs =>
        obtain ⟨bytes, hdid, hbytes, hblocker, hstate⟩ := hputs
        obtain ⟨_, _, hended⟩ := ProtoComponentBranch.round_eq_ok.mp hr
        cases hblocker
        cases hh with
        | silent =>
          cases hcd with
          | inl hcd | inr hcd => cases hcd
        | puts _ _ _ _ hpeer =>
          have hcd := get?_insert_branch_merging (hcd.resolve_right nofun)
          obtain ⟨hpredicate, hbranch⟩ := hcd
          subst hpredicate hbranch
          have hpushed := List.append_cancel_right (hpushed.symm.trans (List.singleton_append).symm)
          subst hport hpushed hbytes
          exact .delivers hput hdid hpeer hstate (Finset.mem_insert_self ..) rfl rfl rfl
            (hended.trans hend)
  | fed hv hi =>
    obtain ⟨hstate, hdid, hended⟩ := visit_branch_input hv hi
    exact .waits hstate hdid hended rfl rfl rfl
  | merged branch => exact .waits rfl rfl rfl rfl rfl rfl

-- While a message is awaited, its put is the next that is evaluated, and its port is noted.
def Awaits (r : BranchRun) : Prop :=
  r.awaited = true →
    r.branch.ended = false ∧ ∃ port payload, r.branch.state.next_put = some (port, payload) ∧
      port ∈ r.branch.inner.did_put_or_get

theorem Awaits.step (h : r.Awaits) (hs : Step env port_info r r') : r'.Awaits := by
  cases hs.case with
  | evaluates _ _ _ _ _ ha | works _ _ _ ha => simp [Awaits, ha]
  | delivers hput _ _ hstate hmem _ _ _ hended =>
    exact fun _ => ⟨hended, _, _, hstate ▸ hput, hmem⟩
  | waits hstate hdid hended _ _ ha => rwa [Awaits, hstate, hdid, hended, ha]

-- A put that is handed out, and anything else than a put, is not what is awaited.
theorem Awaits.not_awaited (h : r.Awaits)
    (hn : ∀ port payload, r.branch.state.next_put = some (port, payload) →
      port ∉ r.branch.inner.did_put_or_get) : r.awaited = false := by
  apply Bool.eq_false_iff.mpr
  intro ha
  obtain ⟨_, port, payload, hput, hmem⟩ := h ha
  exact hn port payload hput hmem

-- The put whose message is awaited.
def pending (r : BranchRun) : List (PortId × Option Payload) :=
  if r.awaited then r.branch.state.next_put.toList else []

theorem pending_of_awaited (h : r.awaited = true) : r.pending = r.branch.state.next_put.toList := by
  simp [pending, h]

theorem pending_eq_nil (h : r.awaited = false) : r.pending = [] := by
  simp [pending, h]

theorem pending_congr (hs : r'.branch.state = r.branch.state) (ha : r'.awaited = r.awaited) :
    r'.pending = r.pending := by
  simp [pending, hs, ha]

-- Every put that has been evaluated, and the one that is awaited, has its message.
def Matched (port_info : PortInfoMap) (r : BranchRun) : Prop :=
  (r.evaluated ++ r.pending).map
    (fun (port, payload) => ((port_info.map.get? port).bind (·.peer), payload)) = r.received

theorem Matched.step (h : r.Matched port_info) (ha : r.Awaits) (hskip : ¬r.Skips)
    (hs : Step env port_info r r') : r'.Matched port_info := by
  cases hs.case with
  | evaluates hended hput hmem he hd ha' =>
    have hawaited : r.awaited = true := by
      apply Bool.eq_true_of_not_eq_false
      exact fun hn => hskip ⟨hended, hn, _, _, hput, hmem⟩
    rw [Matched, pending_of_awaited hawaited, hput] at h
    rw [Matched, pending_eq_nil ha', he, List.append_nil, received, hd]
    exact h
  | delivers hput hn hpeer hstate _ he hd ha' _ =>
    have hawaited := ha.not_awaited fun _ _ hput' => by
      cases hput.symm.trans hput'
      exact hn
    rw [Matched, pending_eq_nil hawaited, List.append_nil] at h
    rw [Matched, pending_of_awaited ha', hstate, hput, he, received, hd]
    simp [h, received, hpeer]
  | works hput he hd ha' =>
    have hawaited := ha.not_awaited fun _ _ hput' => by simp [hput] at hput'
    rw [Matched, pending_eq_nil hawaited] at h
    rw [Matched, pending_eq_nil ha', he, received, hd]
    exact h
  | waits hstate _ _ he hd ha' =>
    rw [Matched, pending_congr hstate ha', he, received, hd]
    exact h

theorem Matched.run (h : r.Matched port_info) (ha : r.Awaits)
    (hpath : (r :: path).IsChain (Step env port_info)) (hskip : ∀ r' ∈ r :: path, ¬r'.Skips) :
    ((r :: path).getLast (by simp)).Matched port_info ∧ ((r :: path).getLast (by simp)).Awaits := by
  induction path generalizing r with
  | nil => exact ⟨h, ha⟩
  | cons next path ih =>
    obtain ⟨hs, hpath⟩ := List.isChain_cons_cons.mp hpath
    obtain ⟨hskip, hskips⟩ := List.forall_mem_cons.mp hskip
    rw [List.getLast_cons_cons]
    exact ih (h.step ha hskip hs) (ha.step hs) hpath hskips

-- As many puts as have been evaluated, or are awaited, have been delivered, or more.
theorem Step.delivered_le (ha : r.Awaits) (hs : Step env port_info r r') :
    r'.delivered.length + (r.evaluated ++ r.pending).length ≤
      r.delivered.length + (r'.evaluated ++ r'.pending).length := by
  have hpending : r.pending.length ≤ 1 := by
    rw [pending]
    split <;> cases r.branch.state.next_put <;> simp
  cases hs.case with
  | evaluates _ _ _ he hd _ =>
    simp only [he, hd, List.length_append, List.length_singleton]
    omega
  | delivers hput hn _ hstate _ he hd ha' _ =>
    have hawaited := ha.not_awaited fun _ _ hput' => by
      cases hput.symm.trans hput'
      exact hn
    simp [pending_eq_nil hawaited, pending_of_awaited ha', hstate, hput, he, hd]
    omega
  | works hput he hd ha' =>
    have hawaited := ha.not_awaited fun _ _ hput' => by simp [hput] at hput'
    rw [pending_eq_nil hawaited, pending_eq_nil ha', he, hd]
  | waits hstate _ _ he hd ha' => rw [pending_congr hstate ha', he, hd]

-- A put that is skipped is evaluated without having been delivered.
theorem Skips.step (h : r.Skips) (hs : Step env port_info r r') :
    r'.Skips ∨ r'.delivered.length + (r.evaluated ++ r.pending).length <
      r.delivered.length + (r'.evaluated ++ r'.pending).length := by
  obtain ⟨hended, ha, port, payload, hput, hmem⟩ := h
  cases hs.case with
  | evaluates _ _ _ he hd _ =>
    right
    simp only [he, hd, pending_eq_nil ha, List.length_append, List.length_singleton, List.length_nil]
    omega
  | delivers hput' hn =>
    cases hput.symm.trans hput'
    exact absurd hmem hn
  | works hput' => simp [hput] at hput'
  | waits hstate hdid hended' _ _ ha' =>
    exact .inl ⟨hended'.trans hended, ha'.trans ha, port, payload, hstate ▸ hput, hdid ▸ hmem⟩

-- No step makes up for a put that has been skipped.
theorem Awaits.run (ha : r.Awaits) (hpath : (r :: path).IsChain (Step env port_info)) :
    let last := (r :: path).getLast (by simp)
    last.Awaits ∧
    last.delivered.length + (r.evaluated ++ r.pending).length ≤
      r.delivered.length + (last.evaluated ++ last.pending).length ∧
    ((∃ r' ∈ r :: path, r'.Skips) → last.Skips ∨
      last.delivered.length + (r.evaluated ++ r.pending).length <
        r.delivered.length + (last.evaluated ++ last.pending).length) := by
  induction path generalizing r with
  | nil => simp [ha]
  | cons next path ih =>
    obtain ⟨hs, hpath⟩ := List.isChain_cons_cons.mp hpath
    obtain ⟨hlast, hle, hlt⟩ := ih (ha.step hs) hpath
    have hle' := hs.delivered_le ha
    simp only [List.getLast_cons_cons]
    refine ⟨hlast, by omega, ?_⟩
    rintro ⟨r', hmem, hskip⟩
    cases List.mem_cons.mp hmem with
    | inr hmem => 
      cases hlt ⟨r', hmem, hskip⟩ with
      | inl h => exact .inl h
      | inr h => exact .inr (by omega)
    | inl hr =>
      subst hr
      cases hskip.step hs with
      | inr h => exact .inr (by omega)
      | inl h =>
        cases hlt ⟨next, by simp, h⟩ with
        | inl h => exact .inl h
        | inr h => exact .inr (by omega)

theorem initial_awaits (prompt : Prompt) : (initial prompt).Awaits := nofun

theorem initial_matched (prompt : Prompt) : (initial prompt).Matched port_info := rfl

-- When a branch has reached the end of its synchronous block, then there is one message for each put
-- that was evaluated in it, unless a put was skipped on the way.
theorem puts_delivered_iff (env : EvalEnv) (port_info : PortInfoMap) (prompt : Prompt)
    (path : List BranchRun) (hpath : (initial prompt :: path).IsChain (Step env port_info))
    (hended : ((initial prompt :: path).getLast (by simp)).branch.ended = true) :
    ((initial prompt :: path).getLast (by simp)).EachDelivered port_info ↔
      ∀ r ∈ initial prompt :: path, ¬r.Skips := by
  obtain ⟨hlast, _, hlt⟩ := (initial_awaits prompt).run hpath
  have hawaited : ((initial prompt :: path).getLast (by simp)).awaited = false := by
    apply Bool.eq_false_iff.mpr
    intro ha
    obtain ⟨hn, _⟩ := hlast ha
    simp [hended] at hn
  constructor
  case mp =>
    intro h r hr hskip
    have hlen := h.length_eq
    simp only [expected, received, List.length_map] at hlen
    cases hlt ⟨r, hr, hskip⟩ with
    | inl hs => simp [hs.left] at hended
    | inr hs =>
      rw [pending_eq_nil hawaited, List.append_nil, hlen] at hs
      simp [initial, pending] at hs
  case mpr =>
    intro hskip
    obtain ⟨hm, _⟩ := (initial_matched prompt).run (initial_awaits prompt) hpath hskip
    rw [Matched, pending_eq_nil hawaited, List.append_nil] at hm
    exact .of_eq hm

-- The predicate with which a branch goes on after a blocker.
def next_predicate (port_info : PortInfoMap) (order : List PortId) (r : BranchRun) :
    SyncBlocker → Predicate
  | .putMsg port _ => (port_info.spec_var_for port).elim r.predicate (r.predicate.inserted · .FIRING)
  | .syncBlockEnd  =>
    match BranchingProtoComponent.complete port_info r.branch.inner.did_put_or_get order
        r.predicate with
    | .ok (some predicate) => predicate
    | _                    => r.predicate
  | _ => r.predicate

-- A step that a branch takes alone, with a round that has no other messages.
def next (env : EvalEnv) (cid : ComponentId) (order : List PortId) (rctx : RoundCtx)
    (r : BranchRun) : Option BranchRun :=
  if r.branch.ended then none
  else
    match r.branch.round env ⟨rctx.ips.port_info, r.predicate⟩ with
    | .ok (none, branch) =>
      some { r with
        branch    := branch
        evaluated := r.evaluated ++ r.branch.state.next_put.toList
        awaited   := false }
    | .ok (some blocker, branch) =>
      match BranchingProtoComponent.handle_blocker cid order { rctx with payload_inbox := [] } ∅
          r.predicate branch blocker with
      | .ok (rctx', cd) =>
        let predicate := r.next_predicate rctx.ips.port_info order blocker
        ((cd.swap.get? predicate).or (cd.output.get? predicate)).map fun branch =>
          { r with
            predicate := predicate
            branch    := branch
            delivered := r.delivered ++ rctx'.payload_inbox
            awaited   := !rctx'.payload_inbox.isEmpty }
      | .error _ => none
    | .error _ => none

def follow (env : EvalEnv) (cid : ComponentId) (order : List PortId) (rctx : RoundCtx) :
    Nat → BranchRun → List BranchRun
  | 0, _ => []
  | n + 1, r =>
    match r.next env cid order rctx with
    | some r' => r' :: follow env cid order rctx n r'
    | none    => []

variable {cid : ComponentId} {order : List PortId} {rctx : RoundCtx}

theorem step_of_next (h : r.next env cid order rctx = some r') :
    Step env rctx.ips.port_info r r' := by
  simp only [next] at h
  split at h
  case isTrue => cases h
  case isFalse hended =>
    have hended := Bool.eq_false_iff.mpr hended
    split at h
    case h_1 hr =>
      cases h
      exact .round hended hr
    case h_2 hr =>
      split at h
      case h_2 => cases h
      case h_1 hh =>
        obtain ⟨branch, hb, h⟩ := Option.map_eq_some_iff.mp h
        subst h
        have hcd := (Option.or_eq_some_iff.mp hb).imp_right And.right
        refine .handled hended ?_ hr hh hcd ?_
        · rfl
        · exact (List.append_nil _).symm
    case h_3 => cases h

variable (env cid order rctx) in
theorem follow_isChain (n : Nat) (r : BranchRun) :
    (r :: r.follow env cid order rctx n).IsChain (Step env rctx.ips.port_info) := by
  induction n generalizing r with
  | zero => exact .singleton r
  | succ n ih =>
    simp only [follow]
    split
    case h_1 r' h => exact .cons_cons (step_of_next h) (ih r')
    case h_2 => exact .singleton r

end BranchRun

-- `primitive p(out<msg> o, msg a, msg b) { sync { put(o, a); put(o, b); } }`, with a put for each of
-- the messages.
def Definition.puts (messages : List Identifier) : Definition where
  this       := 0
  kind       := .primitive
  parameters := [0, 1, 2]
  body       := ⟨0, [.synchronous 1 ⟨2, messages.zipIdx.map fun (message, i) =>
    .expression (6 + i) (.call (3 * i) .put
      [.variable (3 * i + 1) "o", .variable (3 * i + 2) message] 1), 3⟩ 4], 5⟩

def LinkCtx.of_puts : LinkCtx where
  types id       := if id = 1 then .function 2 else .component 3
  has_symbol _ _ := false

def Names.of_puts : Names :=
  .parsed [⟨"o", 0, 0⟩, ⟨"a", 0, 0⟩, ⟨"b", 0, 0⟩]

def Heap.of_puts (messages : List Identifier) : Heap :=
  (visit_module .of_puts [.puts messages] (.parsed .of_puts)).toOption.getD (.parsed .of_puts)

def EvalEnv.puts (messages : List Identifier) : EvalEnv where
  build           := ⟨false, 0⟩
  definitions _   := some (.puts messages)
  arena           := BlockOf.nodes (Definition.puts messages).body
  heap            := .of_puts messages
  expr_data _ _ _ := none

-- The stack of the component, with the port and the messages `[1]` and `[2]`.
def Store.of_puts : Store where
  stack              := [.prevStackBoundary (-1), .output ⟨0, 0⟩, .message 0, .message 1]
  cur_stack_boundary := 0
  heap_regions       := [[.integer .u8 1], [.integer .u8 2]]
  free_regions       := []

-- The component before the statement with the number.
def Prompt.puts (messages : List Identifier) (id : StatementId) : Prompt :=
  let frame := Frame.new (.of_puts messages) (.puts messages) 0
  ⟨[{ frame with position := some id }], Store.of_puts.reserve_stack frame.max_stack_size⟩

-- The component owns the putter of a channel.
def PortInfoMap.of_puts : PortInfoMap where
  map   := .insert (.insert ∅
    ⟨0, 0⟩ ⟨⟨0, 0⟩, some ⟨0, 1⟩, .putter, .localComponent⟩)
    ⟨0, 1⟩ ⟨⟨0, 1⟩, some ⟨0, 0⟩, .getter, .localComponent⟩
  owned := .insert ∅ ⟨0, 0⟩ {⟨0, 0⟩}

def RoundCtx.of_puts : RoundCtx where
  solution_storage := .new [.localComponent ⟨0, 0⟩]
  spec_var_stream  := ⟨0, ⟨0⟩⟩
  payload_inbox    := []
  deadline         := false
  ips              := ⟨.of_puts, .new 0⟩

namespace BranchRun

-- The component enters its synchronous block.
theorem enters_sync_block :
    Relation.ReflTransGen (RunningComponent.Step (.puts ["a", "b"]))
      ⟨.nonsync, .puts ["a", "b"] 0⟩ ⟨.sync, .puts ["a", "b"] 2⟩ := by
  have hnext : (Heap.of_puts ["a", "b"]).next 0 = some 1 := by decide +kernel
  have h₁ : nonsync_round (.puts ["a", "b"]) (⟨0, 0⟩, ⟨0, 1⟩) (.puts ["a", "b"] 0) =
      .ok (.resume, .puts ["a", "b"] 1) := by
    simp only [Prompt.puts, EvalEnv.puts]
    -- The rest of the heap is not needed.
    generalize Heap.of_puts ["a", "b"] = heap at hnext
    rw [show heap = { heap with next := Function.update heap.next 0 (some 1) } by
      rw [← hnext, Function.update_eq_self]]
    rfl
  have h₂ : nonsync_round (.puts ["a", "b"]) (⟨0, 0⟩, ⟨0, 1⟩) (.puts ["a", "b"] 1) =
      .ok (.block .syncBlockStart, .puts ["a", "b"] 2) := by
    simp only [Prompt.puts, EvalEnv.puts]
    generalize Heap.of_puts ["a", "b"] = heap
    rfl
  exact .head (.resume h₁) (.single (.syncBlockStart h₂))

-- The steps of the branch with which speculation begins.
def of_puts (messages : List Identifier) : List BranchRun :=
  (initial (.puts messages 2)).follow (.puts messages) ⟨0, 0⟩ [⟨0, 0⟩] .of_puts 20

theorem of_puts_isChain (messages : List Identifier) :
    (initial (.puts messages 2) :: of_puts messages).IsChain (Step (.puts messages) .of_puts) :=
  follow_isChain _ ⟨0, 0⟩ [⟨0, 0⟩] .of_puts 20 _

-- A put on a port that has been put on before is skipped, and the block ends as if it had not been.
theorem second_put_lost :
    Prompt.new (.of_puts ["a", "b"]) (.puts ["a", "b"]) 0
      ⟨[.output ⟨0, 0⟩, .message 0, .message 1], [[.integer .u8 1], [.integer .u8 2]]⟩ =
        .ok (.puts ["a", "b"] 0) ∧
    Relation.ReflTransGen (RunningComponent.Step (.puts ["a", "b"]))
      ⟨.nonsync, .puts ["a", "b"] 0⟩ ⟨.sync, .puts ["a", "b"] 2⟩ ∧
    ∃ path, (initial (.puts ["a", "b"] 2) :: path).IsChain (Step (.puts ["a", "b"]) .of_puts) ∧
      let last := (initial (.puts ["a", "b"] 2) :: path).getLast (by simp)
      last.branch.ended = true ∧
      last.evaluated = [(⟨0, 0⟩, some [1]), (⟨0, 0⟩, some [2])] ∧
      last.received = [(some ⟨0, 1⟩, some [1])] ∧
      ¬last.EachDelivered .of_puts :=
  ⟨rfl, enters_sync_block, of_puts ["a", "b"], of_puts_isChain _, by decide +kernel⟩

end BranchRun

end Reowolf
