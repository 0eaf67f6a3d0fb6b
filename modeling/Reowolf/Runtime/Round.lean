import Mathlib.Logic.Relation
import Reowolf.Runtime.Connector

namespace Reowolf

-- Where the source panics while a synchronous round is in progress.
inductive PanicSite
  | newChannel         -- no ids are left for a channel, or for the native's variable
  | newComponent       -- no id is left for a component, or it is given ports of another component
  | secondComponent    -- two components with one id enter the synchronous phase
  | unknownEndpoint    -- no endpoint has the index
  | unknownPort        -- no info for a port, or no peer for a putter
  | wrongPolarity      -- the sanity checks on the polarity of putters and getters
  | unknownSubtree     -- no solution set for a component
  | solutionAlreadyOld -- `iter_new_local_make_old` meets a solution twice
  | duplicateBatch     -- two native branches start with one predicate
  | payloadMismatch    -- a branch receives two different payloads through one getter
  | messageAvailable   -- `CouldntReadMsg` although the message is in the inbox
  | firingKnown        -- `CouldntCheckFiring` although the predicate assigns the variable
  | secondPut          -- a branch puts twice through one putter
  | noMatchingBranch   -- no ended branch is consistent with the solution
deriving DecidableEq, Repr

-- A part of a round does not come to its end if it panics, or if the iteration orders and other
-- choices that were given for it are not possible ones.
inductive Stop
  | invalid
  | panic (site : PanicSite)
deriving DecidableEq, Repr

abbrev SyncResult (α : Type) :=
  Except Stop α

namespace SyncResult

def unwrap {α : Type} (site : PanicSite) : Option α → SyncResult α
  | some a => .ok a
  | none   => .error (.panic site)

def assert (site : PanicSite) (p : Prop) [Decidable p] : SyncResult Unit :=
  if p then .ok () else .error (.panic site)

-- A condition on the choices that were given.
def choose (p : Prop) [Decidable p] : SyncResult Unit :=
  if p then .ok () else .error .invalid

variable {α β : Type} {x : SyncResult α} {f : α → SyncResult β} {b : β} {o : Option α} {a : α}
variable {p : Prop} [Decidable p] {site : PanicSite} {u : Unit}

theorem bind_eq_ok : x >>= f = .ok b ↔ ∃ a, x = .ok a ∧ f a = .ok b := by
  cases x <;> simp [bind, Except.bind]

@[simp]
theorem ok_bind : (.ok a : SyncResult α) >>= f = f a :=
  rfl

@[simp]
theorem unwrap_some : unwrap site (some a) = .ok a :=
  rfl

@[simp]
theorem unwrap_eq_ok : unwrap site o = .ok a ↔ o = some a := by
  cases o <;> simp [unwrap]

@[simp]
theorem assert_eq_ok : assert site p = .ok u ↔ p := by
  simp [assert]

theorem assert_pos (h : p) : assert site p = .ok () := by
  simp [assert, h]

@[simp]
theorem choose_eq_ok : choose p = .ok u ↔ p := by
  simp [choose]

theorem choose_pos (h : p) : choose p = .ok () := by
  simp [choose, h]

@[simp]
theorem pure_eq_ok {a' : α} : (pure a' : SyncResult α) = .ok a ↔ a' = a := by
  simp [pure, Except.pure]

end SyncResult

-- A child of a connector in the solution tree.
inductive SubtreeId
  | localComponent (cid : ComponentId)
  | netEndpoint (index : Nat)
deriving DecidableEq

structure SolutionStorage where
  old_local           : Finset Predicate
  new_local           : Finset Predicate
  subtree_solutions   : List (Finset Predicate)
  subtree_id_to_index : HashMap SubtreeId Nat
deriving DecidableEq

namespace SolutionStorage

-- A later occurrence of an id overrides an earlier one.
def new (subtree_ids : List SubtreeId) : SolutionStorage where
  old_local           := ∅
  new_local           := ∅
  subtree_solutions   := subtree_ids.map fun _ => ∅
  subtree_id_to_index := subtree_ids.zipIdx.foldl (fun m (id, index) => m.insert id index) ∅

-- The solutions that the source inserts into `new_local`, which are those found here that are not
-- in `old_local`. The order in which it visits the elements of a set makes no difference to them.
def elaborate_into_new_local_rec : Predicate → List (Finset Predicate) → Finset Predicate
  | partial_, []         => {partial_}
  | partial_, set :: sets => set.biUnion fun pred =>
    match pred.union_with partial_ with
    | some elaborated => elaborate_into_new_local_rec elaborated sets
    | none            => ∅

def submit_and_digest_subtree_solution (s : SolutionStorage) (subtree_id : SubtreeId)
    (predicate : Predicate) : SyncResult SolutionStorage := do
  let index ← SyncResult.unwrap .unknownSubtree (s.subtree_id_to_index.get? subtree_id)
  let set ← SyncResult.unwrap .unknownSubtree s.subtree_solutions[index]?
  if predicate ∈ set then
    return s
  let others := s.subtree_solutions.take index ++ s.subtree_solutions.drop (index + 1)
  let elaborated := elaborate_into_new_local_rec predicate others
  return { s with
    subtree_solutions := s.subtree_solutions.set index (insert predicate set)
    new_local         := s.new_local ∪ elaborated.filter (· ∉ s.old_local) }

-- One step of the iterator, which yields some solution in `new_local`.
def make_old (s : SolutionStorage) (solution : Predicate) : SyncResult SolutionStorage := do
  SyncResult.choose (solution ∈ s.new_local)
  SyncResult.assert .solutionAlreadyOld (solution ∉ s.old_local)
  return { s with
    new_local := s.new_local.erase solution
    old_local := insert solution s.old_local }

-- Solutions of one subtree are submitted, one after the other.
def Digests (id : SubtreeId) : SolutionStorage → SolutionStorage → Prop :=
  Relation.ReflTransGen fun s s' => ∃ p, s.submit_and_digest_subtree_solution id p = .ok s'

-- The solutions that were submitted for a subtree.
def solutions (s : SolutionStorage) (id : SubtreeId) : Finset Predicate :=
  ((s.subtree_id_to_index.get? id).bind (s.subtree_solutions[·]?)).getD ∅

-- The storage has a solution set for the subtree.
def Knows (s : SolutionStorage) (id : SubtreeId) : Prop :=
  ∃ index, s.subtree_id_to_index.get? id = some index ∧ index < s.subtree_solutions.length

variable {s s' s'' : SolutionStorage} {id : SubtreeId} {p : Predicate}

-- Submitting a solution adds it to the set of its subtree.
structure Submits (s : SolutionStorage) (id : SubtreeId) (p : Predicate) (s' : SolutionStorage) :
    Prop where
  index     : s'.subtree_id_to_index = s.subtree_id_to_index
  length    : s'.subtree_solutions.length = s.subtree_solutions.length
  solutions : s'.solutions id = insert p (s.solutions id)
  others    : ∀ {id'}, s.subtree_id_to_index.get? id' ≠ s.subtree_id_to_index.get? id →
              s'.solutions id' = s.solutions id'

theorem submit_ok (h : s.Knows id) :
    ∃ s', s.submit_and_digest_subtree_solution id p = .ok s' ∧ s.Submits id p s' := by
  obtain ⟨index, hi, hlt⟩ := h
  have hs : s.subtree_solutions[index]? = some s.subtree_solutions[index] :=
    List.getElem?_eq_getElem hlt
  unfold submit_and_digest_subtree_solution
  simp only [hi, hs, SyncResult.unwrap_some, SyncResult.ok_bind]
  split
  case isTrue hm =>
    refine ⟨s, rfl, rfl, rfl, ?_, fun _ => rfl⟩
    simp [solutions, hi, hs, hm]
  case isFalse hm =>
    refine ⟨_, rfl, rfl, by simp, ?_, fun {id'} hne => ?_⟩
    · simp [solutions, hi, hlt]
    · simp only [solutions]
      cases hi' : s.subtree_id_to_index.get? id'
      case none => rfl
      case some index' =>
        have : index ≠ index' := fun he => hne (by rw [hi', hi, he])
        simp [List.getElem?_set_ne this]

theorem knows_of_submit (h : s.submit_and_digest_subtree_solution id p = .ok s') : s.Knows id := by
  simp only [submit_and_digest_subtree_solution, SyncResult.bind_eq_ok, SyncResult.unwrap_eq_ok] at h
  obtain ⟨index, hi, set, hs, _⟩ := h
  exact ⟨index, hi, (List.getElem?_eq_some_iff.mp hs).fst⟩

theorem Submits.knows (h : s.Submits id p s') {id'} (hk : s.Knows id') : s'.Knows id' := by
  obtain ⟨index, hi, hlt⟩ := hk
  exact ⟨index, h.index ▸ hi, h.length ▸ hlt⟩

end SolutionStorage

-- The source's vector of messages is pushed and popped at its end. Here that end comes first. The
-- deadline is only kept as whether there is one.
structure RoundCtx where
  solution_storage : SolutionStorage
  spec_var_stream  : SpecVarStream
  payload_inbox    : List (PortId × SendPayloadMsg)
  deadline         : Bool
  ips              : IdAndPortState
deriving DecidableEq

namespace RoundCtx

def getter_push (rctx : RoundCtx) (getter : PortId) (msg : SendPayloadMsg) : RoundCtx :=
  { rctx with payload_inbox := (getter, msg) :: rctx.payload_inbox }

def putter_push (rctx : RoundCtx) (putter : PortId) (msg : SendPayloadMsg) :
    SyncResult RoundCtx := do
  let info ← SyncResult.unwrap .unknownPort (rctx.ips.port_info.map.get? putter)
  let getter ← SyncResult.unwrap .unknownPort info.peer
  return rctx.getter_push getter msg

def submit (rctx : RoundCtx) (subtree_id : SubtreeId) (predicate : Predicate) :
    SyncResult RoundCtx := do
  let storage ← rctx.solution_storage.submit_and_digest_subtree_solution subtree_id predicate
  return { rctx with solution_storage := storage }

def spec_var_for (rctx : RoundCtx) (port : PortId) : SyncResult SpecVar :=
  SyncResult.unwrap .unknownPort (rctx.ips.port_info.spec_var_for port)

def polarity (rctx : RoundCtx) (port : PortId) : SyncResult Polarity := do
  let info ← SyncResult.unwrap .unknownPort (rctx.ips.port_info.map.get? port)
  return info.polarity

-- What submitting a solution of one subtree does to the context of the round.
structure Submitted (rctx : RoundCtx) (id : SubtreeId) (ps : Finset Predicate) (rctx' : RoundCtx) :
    Prop where
  rest      : rctx' = { rctx with solution_storage := rctx'.solution_storage }
  digests   : rctx.solution_storage.Digests id rctx'.solution_storage
  knows     : ∀ {id'}, rctx.solution_storage.Knows id' → rctx'.solution_storage.Knows id'
  solutions : rctx'.solution_storage.solutions id = rctx.solution_storage.solutions id ∪ ps

variable {rctx rctx' rctx'' : RoundCtx} {id : SubtreeId} {p : Predicate} {ps ps' : Finset Predicate}

namespace Submitted

theorem refl : rctx.Submitted id ∅ rctx :=
  ⟨rfl, .refl, fun h => h, by simp⟩

theorem trans (h : rctx.Submitted id ps rctx') (h' : rctx'.Submitted id ps' rctx'') :
    rctx.Submitted id (ps ∪ ps') rctx'' where
  rest      := by rw [h'.rest, h.rest]
  digests   := h.digests.trans h'.digests
  knows     := fun hk => h'.knows (h.knows hk)
  solutions := by rw [h'.solutions, h.solutions, Finset.union_assoc]

theorem ips (h : rctx.Submitted id ps rctx') : rctx'.ips = rctx.ips := by
  rw [h.rest]

end Submitted

theorem submit_ok (h : rctx.solution_storage.Knows id) :
    ∃ rctx', rctx.submit id p = .ok rctx' ∧ rctx.Submitted id {p} rctx' := by
  obtain ⟨s', hs, h⟩ := SolutionStorage.submit_ok (p := p) h
  refine ⟨{ rctx with solution_storage := s' }, by simp [submit, hs], rfl, .single ⟨p, hs⟩,
    h.knows, ?_⟩
  rw [h.solutions, Finset.insert_eq, Finset.union_comm]

theorem submitted_of_submit (h : rctx.submit id p = .ok rctx') : rctx.Submitted id {p} rctx' := by
  have hk : rctx.solution_storage.Knows id := by
    obtain ⟨_, hs, _⟩ := SyncResult.bind_eq_ok.mp h
    exact SolutionStorage.knows_of_submit hs
  obtain ⟨_, h', hs⟩ := submit_ok (p := p) hk
  cases h.symm.trans h'
  exact hs

end RoundCtx
end Reowolf
