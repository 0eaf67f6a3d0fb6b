import Reowolf.Runtime.Connector

namespace Reowolf

-- What deserializing the beginning of a slice comes to: a message with the rest of the slice, the end of
-- the slice within a message, or another error.
inductive Deserialized (M : Type)
  | ok (msg : M) (reading_slice : List UInt8)
  | unexpected_eof
  | invalid

inductive NetEndpointError
  | malformedMessage
  | brokenNetEndpoint
deriving DecidableEq

-- The bytes that have been read, and those that the socket has received and that can be read.
structure NetEndpoint where
  inbox  : List UInt8
  stream : List UInt8

structure TryRecvAnyNetError where
  error : NetEndpointError
  index : Nat

namespace IoByteBuffer

def CAPACITY : Nat := 2 ^ 16 - 1 + 1000

end IoByteBuffer

namespace NetEndpoint

variable {M : Type}

-- Reading ends when it would block, and what has been read stays in the inbox.
def try_recv (deserialize_from : List UInt8 → Deserialized M) (endpoint : NetEndpoint) :
    Except NetEndpointError (Option M) × NetEndpoint :=
  let inbox := endpoint.inbox ++ endpoint.stream
  match deserialize_from inbox with
  | .ok msg reading_slice =>
    let msg_size := inbox.length - reading_slice.length
    (.ok (some msg), ⟨inbox.drop msg_size, []⟩)
  | .unexpected_eof => (.ok none, ⟨inbox, []⟩)
  | .invalid        => (.error .malformedMessage, ⟨inbox, []⟩)

-- Writes the parts of an encoding into a slice. What is left of the slice has to have room for each of
-- them.
def serialize_into (buf_slice : Nat) : List (List UInt8) → Option Nat
  | []             => some buf_slice
  | part :: writes => if part.length ≤ buf_slice then serialize_into (buf_slice - part.length) writes else none

-- The stream takes all that is written, or the connection is broken.
def send (serialize : M → List (List UInt8)) (write_all : List UInt8 → Bool) (msg : M) :
    Result NetEndpointError Unit := do
  let buf_slice ← unwrap (serialize_into IoByteBuffer.CAPACITY (serialize msg))
  let wrote := IoByteBuffer.CAPACITY - buf_slice
  if write_all ((serialize msg).flatten.take wrote) then .ok () else .error (.err .brokenNetEndpoint)

end NetEndpoint

-- The set of the endpoints that may have something to be read. The source's vector is sorted, and popped
-- at its end. Here that end comes first.
def VecSet.insert (element : Nat) : List Nat → List Nat
  | [] => [element]
  | index :: vec =>
    if index < element then element :: index :: vec
    else if index = element then index :: vec
    else index :: VecSet.insert element vec

theorem VecSet.mem_insert {element index : Nat} {vec : List Nat} :
    index ∈ VecSet.insert element vec ↔ index = element ∨ index ∈ vec := by
  induction vec with
  | nil => rw [VecSet.insert, List.mem_singleton, or_iff_left List.not_mem_nil]
  | cons i vec ih =>
    rw [VecSet.insert]
    split
    case isTrue => exact List.mem_cons
    case isFalse =>
      split
      case isTrue he =>
        subst he
        rw [List.mem_cons, ← or_assoc, or_self]
      case isFalse => rw [List.mem_cons, ih, List.mem_cons, or_left_comm]

-- The net endpoints, and those of them that were polled and not drained since.
structure EndpointStore where
  endpoint_exts    : List NetEndpoint
  polled_undrained : List Nat

namespace EndpointStore

variable {M : Type}

-- The loop of `try_recv_undrained_net`.
def try_recv_polled (deserialize_from : List UInt8 → Deserialized M) :
    List Nat → List NetEndpoint → Result TryRecvAnyNetError (Option (Nat × M)) × EndpointStore
  | [], exts => (.ok none, ⟨exts, []⟩)
  | index :: polled, exts =>
    match exts[index]? with
    | none => (.error .panic, ⟨exts, polled⟩)
    | some net_endpoint =>
      match net_endpoint.try_recv deserialize_from with
      | (.error error, net_endpoint) => (.error (.err ⟨error, index⟩), ⟨exts.set index net_endpoint, polled⟩)
      | (.ok (some msg), net_endpoint) =>
        -- There may be another message waiting.
        let polled := if net_endpoint.inbox.isEmpty then polled else VecSet.insert index polled
        (.ok (some (index, msg)), ⟨exts.set index net_endpoint, polled⟩)
      | (.ok none, net_endpoint) => try_recv_polled deserialize_from polled (exts.set index net_endpoint)

def try_recv_undrained_net (deserialize_from : List UInt8 → Deserialized M) (store : EndpointStore) :
    Result TryRecvAnyNetError (Option (Nat × M)) × EndpointStore :=
  try_recv_polled deserialize_from store.polled_undrained store.endpoint_exts

-- The indices of the endpoints for which there are events.
def poll_and_populate (events : List Nat) (store : EndpointStore) : EndpointStore :=
  { store with polled_undrained := events.foldl (fun polled index => VecSet.insert index polled)
                                     store.polled_undrained }

theorem mem_poll_and_populate {events : List Nat} {store : EndpointStore} {index : Nat} :
    index ∈ (store.poll_and_populate events).polled_undrained ↔
      index ∈ events ∨ index ∈ store.polled_undrained := by
  show index ∈ events.foldl (fun polled index => VecSet.insert index polled) store.polled_undrained ↔ _
  generalize store.polled_undrained = polled
  induction events generalizing polled with
  | nil => rw [List.foldl_nil, or_iff_right List.not_mem_nil]
  | cons event events ih =>
    rw [List.foldl_cons, ih, VecSet.mem_insert, List.mem_cons, or_assoc, or_left_comm]

-- The receipt of a message by an endpoint while it is set up.
def setup_recv (deserialize_from : List UInt8 → Deserialized M) (index : Nat) (store : EndpointStore) :
    Result NetEndpointError (Option M) × EndpointStore :=
  match store.endpoint_exts[index]? with
  | none => (.error .panic, store)
  | some net_endpoint =>
    match net_endpoint.try_recv deserialize_from with
    | (.error error, net_endpoint) =>
      (.error (.err error), { store with endpoint_exts := store.endpoint_exts.set index net_endpoint })
    | (.ok maybe_msg, net_endpoint) =>
      let store := { store with endpoint_exts := store.endpoint_exts.set index net_endpoint }
      if maybe_msg.isSome ∧ ¬ net_endpoint.inbox.isEmpty then
        (.ok maybe_msg, { store with polled_undrained := VecSet.insert index store.polled_undrained })
      else (.ok maybe_msg, store)

-- The send procedure of the communication phase.
def send_to_comms (serialize : M → List (List UInt8)) (write_all : Nat → List UInt8 → Bool) (index : Nat)
    (msg : M) (store : EndpointStore) : Result UnrecoverableSyncError Unit :=
  match store.endpoint_exts[index]? with
  | none   => .error .panic
  | some _ =>
    match NetEndpoint.send serialize (write_all index) msg with
    | .ok ()            => .ok ()
    | .error (.err _)   => .error (.err (.brokenNetEndpoint index))
    | .error .panic     => .error .panic

end EndpointStore

end Reowolf
