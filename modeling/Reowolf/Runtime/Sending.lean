import Mathlib.Algebra.GroupWithZero.Nat
import Reowolf.Runtime.NetEndpoint

namespace Reowolf

namespace NetEndpoint

variable {M : Type} {serialize : M → List (List UInt8)}

-- The parts of an encoding are written exactly if all of them fit into the buffer.
theorem serialize_into_eq (buf_slice : Nat) (parts : List (List UInt8)) :
    serialize_into buf_slice parts =
      if parts.flatten.length ≤ buf_slice then some (buf_slice - parts.flatten.length) else none := by
  induction parts generalizing buf_slice with
  | nil => rw [serialize_into, List.flatten_nil, List.length_nil, if_pos (Nat.zero_le _), Nat.sub_zero]
  | cons part parts ih =>
    rw [serialize_into, List.flatten_cons, List.length_append]
    by_cases h : part.length ≤ buf_slice
    case neg => rw [if_neg h, if_neg (by omega)]
    case pos =>
      rw [if_pos h, ih]
      by_cases hp : parts.flatten.length ≤ buf_slice - part.length
      case pos => rw [if_pos hp, if_pos (by omega), Nat.sub_sub]
      case neg => rw [if_neg hp, if_neg (by omega)]

-- The whole encoding is written to the stream, or nothing of it.
theorem send_eq (write_all : List UInt8 → Bool) (msg : M) :
    send serialize write_all msg =
      if (serialize msg).flatten.length ≤ IoByteBuffer.CAPACITY then
        if write_all (serialize msg).flatten then .ok () else .error (.err .brokenNetEndpoint)
      else .error .panic := by
  rw [send, serialize_into_eq]
  by_cases h : (serialize msg).flatten.length ≤ IoByteBuffer.CAPACITY
  case pos =>
    rw [if_pos h, if_pos h]
    show (if write_all (List.take (IoByteBuffer.CAPACITY - (IoByteBuffer.CAPACITY - _)) _) then _ else _) = _
    rw [Nat.sub_sub_self h, List.take_length]
  case neg =>
    rw [if_neg h, if_neg h]
    rfl

end NetEndpoint

section Encoding

-- A number in the variable-length encoding: a byte, or the width as a mark and little-endian bytes.
def serialize_varint (n : Nat) : List (List UInt8) :=
  if n < 251 then [[UInt8.ofNat n]]
  else if n < 2 ^ 16 then [[251], bytes 2]
  else if n < 2 ^ 32 then [[252], bytes 4]
  else [[253], bytes 8]
where
  bytes (width : Nat) : List UInt8 :=
    (List.range width).map fun i => UInt8.ofNat (n / 256 ^ i)

def Id.serialize (id : Id) : List (List UInt8) :=
  serialize_varint id.connector_id ++ serialize_varint id.u32_suffix

def Polarity.serialize : Polarity → List (List UInt8)
  | putter => serialize_varint 0
  | getter => serialize_varint 1

def SpecVal.serialize (v : SpecVal) : List (List UInt8) :=
  serialize_varint v.val.toNat

def Predicate.serialize (p : Predicate) : List (List UInt8) :=
  serialize_varint p.assigned.entries.length ++
    p.assigned.entries.flatMap fun (var, val) => var.serialize ++ val.serialize

def Payload.serialize (payload : Payload) : List (List UInt8) :=
  serialize_varint payload.length ++ payload.map fun b => [b]

def MyPortInfo.serialize (info : MyPortInfo) : List (List UInt8) :=
  info.polarity.serialize ++ info.port.serialize ++ info.owner.serialize

def Decision.serialize : Decision → List (List UInt8)
  | failure           => serialize_varint 0
  | success predicate => serialize_varint 1 ++ predicate.serialize

def SendPayloadMsg.serialize (msg : SendPayloadMsg) : List (List UInt8) :=
  msg.predicate.serialize ++ Payload.serialize msg.payload

def CommCtrlMsg.serialize : CommCtrlMsg → List (List UInt8)
  | suggest suggestion => serialize_varint 0 ++ suggestion.serialize
  | announce decision  => serialize_varint 1 ++ decision.serialize

def CommMsgContents.serialize : CommMsgContents → List (List UInt8)
  | sendPayload msg => serialize_varint 0 ++ msg.serialize
  | commCtrl msg    => serialize_varint 1 ++ msg.serialize

def CommMsg.serialize (msg : CommMsg) : List (List UInt8) :=
  serialize_varint msg.round_index ++ msg.contents.serialize

def SetupMsg.serialize : SetupMsg → List (List UInt8)
  | myPortInfo info            => serialize_varint 0 ++ info.serialize
  | leaderWave wave_leader     => serialize_varint 1 ++ serialize_varint wave_leader
  | leaderAnnounce tree_leader => serialize_varint 2 ++ serialize_varint tree_leader
  | youAreMyParent             => serialize_varint 3

def Msg.serialize : Msg → List (List UInt8)
  | setupMsg msg => serialize_varint 0 ++ msg.serialize
  | commMsg msg  => serialize_varint 1 ++ msg.serialize

-- The bytes of an encoding.
def size (parts : List (List UInt8)) : Nat :=
  parts.flatten.length

theorem size_append (parts parts' : List (List UInt8)) : size (parts ++ parts') = size parts + size parts' := by
  rw [size, List.flatten_append, List.length_append]
  rfl

theorem Payload.size_serialize (payload : Payload) :
    size (Payload.serialize payload) = size (serialize_varint payload.length) + payload.length := by
  have hbytes : size (payload.map fun b => [b]) = payload.length := by
    rw [size, ← List.flatMap_def, List.flatMap_singleton']
  rw [Payload.serialize, size_append, hbytes]

theorem Msg.payload_le_size (round_index : Nat) (msg : SendPayloadMsg) :
    msg.payload.length ≤ size (Msg.serialize (.commMsg ⟨round_index, .sendPayload msg⟩)) := by
  have h := Payload.size_serialize msg.payload
  rw [Msg.serialize, CommMsg.serialize, CommMsgContents.serialize, SendPayloadMsg.serialize]
  simp only [size_append]
  omega

end Encoding

-- The message can be sent to any of the endpoints, whatever becomes of its bytes.
def NeverPanics {M : Type} (serialize : M → List (List UInt8)) (msg : M) : Prop :=
  ∀ (write_all : Nat → List UInt8 → Bool) (index : Nat) (store : EndpointStore),
    index < store.endpoint_exts.length → store.send_to_comms serialize write_all index msg ≠ .error .panic

theorem EndpointStore.send_to_comms_panics_iff {M : Type} {serialize : M → List (List UInt8)} {msg : M}
    {write_all : Nat → List UInt8 → Bool} {index : Nat} {store : EndpointStore}
    (h : index < store.endpoint_exts.length) :
    store.send_to_comms serialize write_all index msg = .error .panic ↔
      IoByteBuffer.CAPACITY < size (serialize msg) := by
  rw [send_to_comms, List.getElem?_eq_getElem h]
  dsimp only
  rw [NetEndpoint.send_eq]
  by_cases hfits : (serialize msg).flatten.length ≤ IoByteBuffer.CAPACITY
  case neg =>
    rw [if_neg hfits]
    exact iff_of_true rfl (Nat.lt_of_not_le hfits)
  case pos =>
    rw [if_pos hfits]
    refine iff_of_false ?_ (Nat.not_lt_of_le hfits)
    cases write_all index (serialize msg).flatten <;> rintro ⟨⟩

-- A payload that is longer than the buffer does not fit.
theorem payload_panics {msg : SendPayloadMsg} (h : IoByteBuffer.CAPACITY < msg.payload.length)
    (round_index : Nat) {write_all : Nat → List UInt8 → Bool} {index : Nat} {store : EndpointStore}
    (hindex : index < store.endpoint_exts.length) :
    store.send_to_comms Msg.serialize write_all index (.commMsg ⟨round_index, .sendPayload msg⟩) =
      .error .panic :=
  (EndpointStore.send_to_comms_panics_iff hindex).mpr (Nat.lt_of_lt_of_le h (Msg.payload_le_size round_index msg))

namespace Connector

variable {S : Type} {c c' : Connector S} {port : PortId} {payload : Payload}

-- Whether a payload is accepted has nothing to do with it.
theorem put_any_payload (h : c.put port payload = .ok c') (payload' : Payload) :
    ∃ c'', c.put port payload' = .ok c'' := by
  obtain ⟨⟨comm, batch⟩, ha, h⟩ := Result.bind_eq_ok.mp h
  simp only at h
  split at h
  case isTrue => cases h
  case isFalse hp =>
    refine ⟨c.set_batch comm { batch with to_put := batch.to_put.insert port payload' }, ?_⟩
    exact Result.bind_eq_ok.mpr ⟨(comm, batch), ha, if_neg hp⟩

end Connector

-- Nothing checks the size of a message before it is written into the buffer.
theorem never_panics_iff {M : Type} (serialize : M → List (List UInt8)) (msg : M) :
    NeverPanics serialize msg ↔ size (serialize msg) ≤ IoByteBuffer.CAPACITY := by
  constructor
  · intro h
    by_contra hlt
    refine h (fun _ _ => true) 0 ⟨[⟨[], []⟩], []⟩ Nat.zero_lt_one ?_
    exact (EndpointStore.send_to_comms_panics_iff Nat.zero_lt_one).mpr (Nat.lt_of_not_le hlt)
  · intro hle write_all index store hindex hpanic
    exact Nat.not_lt_of_le hle ((EndpointStore.send_to_comms_panics_iff hindex).mp hpanic)

-- The connector has an outgoing port. The payload is longer than the buffer.
theorem long_payload_panics : ∃ (c c' : Connector Unit) (port : PortId) (payload : Payload),
    c.put port payload = .ok c' ∧ ∀ round_index predicate,
      ¬ NeverPanics Msg.serialize (.commMsg ⟨round_index, .sendPayload ⟨predicate, payload⟩⟩) := by
  let info : PortInfo :=
    { owner := ⟨0, 0⟩, peer := some ⟨1, 0⟩, polarity := .putter, route := .localComponent }
  let info' : PortInfo :=
    { owner := ⟨1, 0⟩, peer := some ⟨0, 0⟩, polarity := .getter, route := .netEndpoint 0 }
  let c : Connector Unit :=
    { unphased := ⟨∅, ⟨⟨(HashMap.insert ∅ ⟨0, 0⟩ info).insert ⟨1, 0⟩ info', HashMap.insert ∅ ⟨0, 0⟩ {⟨0, 0⟩}⟩,
        ⟨0, ⟨1⟩, ⟨1⟩⟩⟩, ⟨0, 0⟩⟩
      phased   := .communication ⟨0, ⟨[], [], [⟨⟨0, 0⟩⟩], []⟩, ⟨none, [0]⟩, [∅], .ok none⟩ }
  have hempty : c.put ⟨0, 0⟩ [] = .ok _ := rfl
  obtain ⟨c', h⟩ := Connector.put_any_payload hempty (List.replicate 66536 0)
  refine ⟨c, c', ⟨0, 0⟩, List.replicate 66536 0, h, fun round_index predicate hnever => ?_⟩
  refine hnever (fun _ _ => true) 0 ⟨[⟨[], []⟩], []⟩ Nat.zero_lt_one (payload_panics ?_ round_index Nat.zero_lt_one)
  rw [List.length_replicate, IoByteBuffer.CAPACITY]
  decide

end Reowolf
