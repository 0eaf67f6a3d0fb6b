import Reowolf.Protocol.Executor
import Reowolf.Runtime.Sync

namespace Reowolf

-- The port of a value. The runtime holds it to be unreachable that there is none.
def Value.port : Value → Except Panic PortId
  | .output port | .input port => .ok port
  | _                          => .error .port

def Value.ports : Value → List PortId
  | .output port | .input port => [port]
  | _                          => []

-- The ports in the arguments of a new component.
def ValueGroup.moved_ports (args : ValueGroup) : Finset PortId :=
  ((args.values ++ args.regions.flatten).flatMap Value.ports).toFinset

-- How `nonsync_run` goes on after a step of the prompt.
inductive NonsyncTurn
  | resume
  | newComponent (moved_ports : Finset PortId) (init_state : Prompt)
  | block (blocker : NonsyncBlocker)

def nonsync_turn (env : EvalEnv) : EvalContinuation → Except Panic NonsyncTurn
  | .stepping       => .ok .resume
  | .inconsistent   => .ok (.block .inconsistent)
  | .terminal       => .ok (.block .componentExit)
  | .syncBlockStart => .ok (.block .syncBlockStart)
  -- Not possible to end a sync block if never entered one.
  | .syncBlockEnd   => .error .phase
  | .newComponent definition_id monomorph_idx args => do
    let definition ← env.definition definition_id
    let init_state ← Prompt.new env.heap definition monomorph_idx args
    .ok (.newComponent args.moved_ports init_state)
  -- Outside synchronous blocks, no fires/get/put happens.
  | .blockFires _ | .blockGet _ | .put _ _ => .error .phase

-- How `sync_run` goes on after a step of the prompt: with the next step, unless it is blocked.
def sync_turn (store : Store) : EvalContinuation → Except Panic (Option SyncBlocker)
  | .stepping       => .ok none
  | .inconsistent   => .ok (some .inconsistent)
  -- First need to exit synchronous block before definition may end.
  | .terminal       => .error .phase
  -- No nested synchronous blocks.
  | .syncBlockStart => .error .phase
  | .syncBlockEnd   => .ok (some .syncBlockEnd)
  -- Not possible to create component in sync block.
  | .newComponent .. => .error .phase
  | .blockFires port => do
    let port ← port.port
    .ok (some (.couldntCheckFiring port))
  | .blockGet port => do
    let port ← port.port
    .ok (some (.couldntReadMsg port))
  | .put port message => do
    let port ← port.port
    match message with
    | .null => .ok (some .inconsistent)
    | .message pos => do
      let values ← store.region pos
      let bytes ← (values.mapM (Value.as_integer .u8) : Except Fault (List (Integer .u8)))
      .ok (some (.putMsg port (bytes.map fun byte => UInt8.ofBitVec byte)))
    | _ => .error .port

-- A round of the loop of `Prompt::step` within the loop of `nonsync_run`.
def nonsync_round (env : EvalEnv) (new_port_pair : PortId × PortId) (prompt : Prompt) :
    Except Panic (NonsyncTurn × Prompt) := do
  match ← prompt.advance env (.nonsync new_port_pair) with
  | .more prompt => .ok (.resume, prompt)
  | .done continuation prompt => do
    let turn ← nonsync_turn env continuation
    .ok (turn, prompt)

-- The same within the loop of `sync_run`.
def sync_round (env : EvalEnv) (is_firing : PortId → Option Bool) (read_msg : PortId → Option Payload)
    (did_put_or_get : PortId → Bool) (prompt : Prompt) :
    Except Panic (Option SyncBlocker × Prompt) := do
  match ← prompt.advance env (.sync is_firing read_msg did_put_or_get) with
  | .more prompt => .ok (none, prompt)
  | .done continuation prompt => do
    let blocker ← sync_turn prompt.store continuation
    .ok (blocker, prompt)

-- Whether a component is run by `nonsync_run` or by `sync_run`.
inductive Phase
  | nonsync
  | sync
deriving DecidableEq

-- A component in the hands of the runtime.
structure RunningComponent where
  phase  : Phase
  prompt : Prompt

namespace RunningComponent

-- One round of the loops. A component that is blocked in its synchronous block may be run again in
-- it, by another branch and with more messages.
inductive Step (env : EvalEnv) : RunningComponent → RunningComponent → Prop
  | resume {new_port_pair prompt prompt'} :
    nonsync_round env new_port_pair prompt = .ok (.resume, prompt') →
    Step env ⟨.nonsync, prompt⟩ ⟨.nonsync, prompt'⟩
  | newComponent {new_port_pair prompt moved_ports init_state prompt'} :
    nonsync_round env new_port_pair prompt = .ok (.newComponent moved_ports init_state, prompt') →
    Step env ⟨.nonsync, prompt⟩ ⟨.nonsync, prompt'⟩
  | syncBlockStart {new_port_pair prompt prompt'} :
    nonsync_round env new_port_pair prompt = .ok (.block .syncBlockStart, prompt') →
    Step env ⟨.nonsync, prompt⟩ ⟨.sync, prompt'⟩
  | sync {is_firing read_msg did_put_or_get prompt blocker prompt'} :
    sync_round env is_firing read_msg did_put_or_get prompt = .ok (blocker, prompt') →
    blocker ≠ some .inconsistent → blocker ≠ some .syncBlockEnd →
    Step env ⟨.sync, prompt⟩ ⟨.sync, prompt'⟩
  | syncBlockEnd {is_firing read_msg did_put_or_get prompt prompt'} :
    sync_round env is_firing read_msg did_put_or_get prompt = .ok (some .syncBlockEnd, prompt') →
    Step env ⟨.sync, prompt⟩ ⟨.nonsync, prompt'⟩

-- The next round reaches an `unreachable!()` of `nonsync_run`, `sync_run` or `EvalContext`.
def Unreachable (env : EvalEnv) : RunningComponent → Prop
  | ⟨.nonsync, prompt⟩ => ∃ new_port_pair panic, panic ∈ [Panic.phase, Panic.port] ∧
    nonsync_round env new_port_pair prompt = .error panic
  | ⟨.sync, prompt⟩ => ∃ is_firing read_msg did_put_or_get panic, panic ∈ [Panic.phase, Panic.port] ∧
    sync_round env is_firing read_msg did_put_or_get prompt = .error panic

end RunningComponent

end Reowolf
