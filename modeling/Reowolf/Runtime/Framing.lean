import Mathlib.Algebra.BigOperators.Group.Finset.Basic
import Mathlib.Algebra.Order.BigOperators.Group.Finset
import Mathlib.Logic.Function.Basic
import Reowolf.Library.Transition
import Reowolf.Runtime.NetEndpoint

namespace Reowolf

-- What the serialization of messages promises. A message is read from the bytes that it was written to,
-- whatever follows them, and it is not read from fewer of them.
structure Framed {M : Type} (serialize : M → List UInt8) (deserialize_from : List UInt8 → Deserialized M) :
    Prop where
  complete : ∀ msg bytes, deserialize_from (serialize msg ++ bytes) = .ok msg bytes
  fragment : ∀ msg bytes, bytes <+: serialize msg → bytes ≠ serialize msg →
             deserialize_from bytes = .unexpected_eof

-- The net endpoints of a connector and their peers: the bytes that are under way to an endpoint, whether
-- there is an event for it, the messages that were sent to it, and those that were received by it.
structure Transport (M : Type) where
  store    : EndpointStore
  wire     : Nat → List UInt8
  ready    : Nat → Bool
  sent     : Nat → List M
  received : Nat → List M

namespace Transport

variable {M : Type} {serialize : M → List UInt8} {deserialize_from : List UInt8 → Deserialized M}

def deliver (s : Transport M) (index : Nat) (msg : M) (store : EndpointStore) : Transport M :=
  { s with store := store, received := Function.update s.received index (s.received index ++ [msg]) }

theorem deliver_received {s : Transport M} {index : Nat} {msg : M} {store : EndpointStore} :
    (s.deliver index msg store).received index = s.received index ++ [msg] := by
  simp only [deliver, Function.update_self]

theorem deliver_received_ne {s : Transport M} {index i : Nat} {msg : M} {store : EndpointStore}
    (hi : i ≠ index) : (s.deliver index msg store).received i = s.received i := by
  simp only [deliver, Function.update_of_ne hi]

inductive Act (M : Type)
  | sends (index : Nat) (msg : M)
  | arrives (index : Nat) (bytes : List UInt8)
  | polls (events : List Nat)
  | receives (index : Nat) (msg : M)
  | nothing
  | fails

-- Bytes arrive in any portions. A poll yields any of the events there are, and it can also yield others.
-- An endpoint that is being set up tries to receive when there is an event for it.
inductive Step (serialize : M → List UInt8) (deserialize_from : List UInt8 → Deserialized M) (s : Transport M) :
    Act M → Transport M → Prop
  | sends {index msg} :
    index < s.store.endpoint_exts.length →
    Step _ _ s (.sends index msg) { s with
      wire := Function.update s.wire index (s.wire index ++ serialize msg)
      sent := Function.update s.sent index (s.sent index ++ [msg]) }
  | arrives {index endpoint bytes rest} :
    s.store.endpoint_exts[index]? = some endpoint →
    s.wire index = bytes ++ rest →
    Step _ _ s (.arrives index bytes) { s with
      store := { s.store with
        endpoint_exts := s.store.endpoint_exts.set index ⟨endpoint.inbox, endpoint.stream ++ bytes⟩ }
      wire  := Function.update s.wire index rest
      ready := Function.update s.ready index true }
  | polls {events} :
    (∀ index ∈ events, index < s.store.endpoint_exts.length) →
    Step _ _ s (.polls events) { s with
      store := s.store.poll_and_populate events
      ready := fun index => s.ready index && decide (index ∉ events) }
  | receives {index msg store} :
    s.store.try_recv_undrained_net deserialize_from = (.ok (some (index, msg)), store) →
    Step _ _ s (.receives index msg) (s.deliver index msg store)
  | nothing {store} :
    s.store.try_recv_undrained_net deserialize_from = (.ok none, store) →
    Step _ _ s .nothing { s with store := store }
  | fails {err store} :
    s.store.try_recv_undrained_net deserialize_from = (.error err, store) →
    Step _ _ s .fails { s with store := store }
  | setup {index msg store} :
    index < s.store.endpoint_exts.length →
    s.store.setup_recv deserialize_from index = (.ok (some msg), store) →
    Step _ _ s (.receives index msg) { s.deliver index msg store with
      ready := Function.update s.ready index false }
  | setup_nothing {index store} :
    index < s.store.endpoint_exts.length →
    s.store.setup_recv deserialize_from index = (.ok none, store) →
    Step _ _ s .nothing { s with store := store, ready := Function.update s.ready index false }
  | setup_fails {index err store} :
    index < s.store.endpoint_exts.length →
    s.store.setup_recv deserialize_from index = (.error err, store) →
    Step _ _ s .fails { s with store := store, ready := Function.update s.ready index false }

def transport (serialize : M → List UInt8) (deserialize_from : List UInt8 → Deserialized M) :
    TransitionSystem (Transport M) (Act M) where
  Init s := (∀ endpoint ∈ s.store.endpoint_exts, endpoint = ⟨[], []⟩) ∧ s.store.polled_undrained = [] ∧
    s.wire = (fun _ => []) ∧ s.ready = (fun _ => false) ∧ s.sent = (fun _ => []) ∧ s.received = fun _ => []
  Step := Step serialize deserialize_from

-- The endpoint has a message to yield.
def Yields (deserialize_from : List UInt8 → Deserialized M) (inbox : List UInt8) : Prop :=
  ∃ msg bytes, deserialize_from inbox = .ok msg bytes

-- Receiving from the endpoints until there is nothing left.
inductive Drains (deserialize_from : List UInt8 → Deserialized M) : Transport M → Transport M → Prop
  | done {s store} :
    s.store.try_recv_undrained_net deserialize_from = (.ok none, store) →
    Drains _ s { s with store := store }
  | next {s index msg store s'} :
    s.store.try_recv_undrained_net deserialize_from = (.ok (some (index, msg)), store) →
    Drains _ (s.deliver index msg store) s' →
    Drains _ s s'

-- What is left of the bytes of an endpoint are the messages that were not received yet.
def Carries (serialize : M → List UInt8) (exts : List NetEndpoint) (more : Nat → List UInt8)
    (pending : Nat → List M) : Prop :=
  ∀ index endpoint, exts[index]? = some endpoint →
    endpoint.inbox ++ endpoint.stream ++ more index = (pending index).flatMap serialize

-- An endpoint that is not marked has been read, and there is nothing in its inbox that it could yield.
def Drained (deserialize_from : List UInt8 → Deserialized M) (endpoint : NetEndpoint) : Prop :=
  endpoint.stream = [] ∧ ¬ Yields deserialize_from endpoint.inbox

-- What a call does to the store: the endpoints that lose their mark are drained, and the other ones that
-- are not marked stay as they are.
structure Tried (deserialize_from : List UInt8 → Deserialized M) (polled : List Nat) (exts : List NetEndpoint)
    (store : EndpointStore) : Prop where
  length : store.endpoint_exts.length = exts.length
  marked : ∀ index ∈ store.polled_undrained, index ∈ polled
  others : ∀ index endpoint, store.endpoint_exts[index]? = some endpoint →
           index ∉ store.polled_undrained →
           exts[index]? = some endpoint ∧ index ∉ polled ∨ Drained deserialize_from endpoint

theorem carries_set {exts : List NetEndpoint} {more : Nat → List UInt8} {pending : Nat → List M} {index : Nat}
    (endpoint : NetEndpoint) {ms : List M} (hc : Carries serialize exts more pending)
    (h : endpoint.inbox ++ endpoint.stream ++ more index = ms.flatMap serialize) :
    Carries serialize (exts.set index endpoint) more (Function.update pending index ms) := by
  intro i e he
  by_cases hi : index = i
  case pos =>
    subst hi
    rw [List.getElem?_set_self'] at he
    obtain ⟨_, _, rfl⟩ := Option.map_eq_some_iff.mp he
    rw [Function.update_self]
    exact h
  case neg =>
    rw [List.getElem?_set_ne hi] at he
    rw [Function.update_of_ne (Ne.symm hi)]
    exact hc i e he

-- What has been read into the inbox is still there.
theorem Carries.read {exts : List NetEndpoint} {more : Nat → List UInt8} {pending : Nat → List M} {index : Nat}
    {endpoint : NetEndpoint} (hc : Carries serialize exts more pending) (hget : exts[index]? = some endpoint) :
    Carries serialize (exts.set index ⟨endpoint.inbox ++ endpoint.stream, []⟩) more pending := by
  have hset := carries_set ⟨endpoint.inbox ++ endpoint.stream, []⟩ hc
    (by rw [List.append_nil]; exact hc index _ hget)
  rwa [Function.update_eq_self] at hset

namespace Tried

variable {exts : List NetEndpoint} {polled polled' : List Nat} {index : Nat} {inbox : List UInt8}

-- One endpoint has been read, and loses its mark only when it has nothing to yield.
theorem set (hlt : index < exts.length) (hy : index ∉ polled' → ¬ Yields deserialize_from inbox)
    (hsub : ∀ i ∈ polled, i ∈ polled') (hsup : ∀ i ∈ polled', i ∈ index :: polled) :
    Tried deserialize_from (index :: polled) exts ⟨exts.set index ⟨inbox, []⟩, polled'⟩ := by
  refine ⟨List.length_set, hsup, fun i e he hi => ?_⟩
  dsimp only at he hi
  by_cases hne : index = i
  case pos =>
    subst hne
    rw [List.getElem?_set_self hlt] at he
    cases he
    exact .inr ⟨rfl, hy hi⟩
  case neg =>
    rw [List.getElem?_set_ne hne] at he
    exact .inl ⟨he, List.not_mem_cons_of_ne_of_not_mem (Ne.symm hne) fun hm => hi (hsub i hm)⟩

-- One endpoint has nothing to yield, and then others are tried.
theorem cons {store : EndpointStore} (hlt : index < exts.length) (hy : ¬ Yields deserialize_from inbox)
    (h : Tried deserialize_from polled (exts.set index ⟨inbox, []⟩) store) :
    Tried deserialize_from (index :: polled) exts store := by
  refine ⟨h.length.trans List.length_set, fun i hi => List.mem_cons_of_mem index (h.marked i hi), ?_⟩
  intro i e he hi
  obtain ⟨hsame, hn⟩ | hd := h.others i e he hi
  case inr => exact .inr hd
  by_cases hne : index = i
  case pos =>
    subst hne
    rw [List.getElem?_set_self hlt] at hsame
    cases hsame
    exact .inr ⟨rfl, hy⟩
  case neg =>
    rw [List.getElem?_set_ne hne] at hsame
    exact .inl ⟨hsame, List.not_mem_cons_of_ne_of_not_mem (Ne.symm hne) hn⟩

end Tried

section Receiving

variable [Nontrivial M] (hf : Framed serialize deserialize_from)
include hf

theorem serialize_ne_nil (msg : M) : serialize msg ≠ [] := by
  intro hnil
  obtain ⟨other, hne⟩ := exists_ne msg
  have h₁ := hf.complete msg (serialize other)
  have h₂ := hf.complete other []
  rw [hnil, List.nil_append] at h₁
  rw [List.append_nil, h₁] at h₂
  exact hne (Deserialized.ok.inj h₂).1.symm

-- Some of the bytes of messages: there is the first message, or not all of it.
theorem deserialize_cases {inbox more : List UInt8} {pending : List M}
    (h : inbox ++ more = pending.flatMap serialize) :
    (∃ msg ms bytes, pending = msg :: ms ∧ inbox = serialize msg ++ bytes ∧
      deserialize_from inbox = .ok msg bytes ∧ bytes ++ more = ms.flatMap serialize) ∨
    deserialize_from inbox = .unexpected_eof := by
  cases pending with
  | nil =>
    rw [List.flatMap_nil, List.append_eq_nil_iff] at h
    obtain ⟨other, _⟩ := exists_pair_ne M
    right
    rw [h.1]
    exact hf.fragment other [] List.nil_prefix (serialize_ne_nil hf other).symm
  | cons msg ms =>
    rw [List.flatMap_cons, List.append_eq_append_iff] at h
    rcases h with ⟨rest, he, hmore⟩ | ⟨bytes, hinbox, hms⟩
    · by_cases hrest : rest = []
      case pos =>
        subst hrest
        rw [List.append_nil] at he
        rw [List.nil_append] at hmore
        left
        refine ⟨msg, ms, [], rfl, by rw [List.append_nil, he], ?_, hmore⟩
        have hc := hf.complete msg []
        rw [List.append_nil, he] at hc
        exact hc
      case neg =>
        right
        refine hf.fragment msg inbox ⟨rest, he.symm⟩ fun heq => hrest ?_
        rw [heq] at he
        exact List.self_eq_append_right.mp he
    · left
      exact ⟨msg, ms, bytes, rfl, hinbox, by rw [hinbox, hf.complete], hms.symm⟩

theorem try_recv_cases {endpoint : NetEndpoint} {more : List UInt8} {pending : List M}
    (h : endpoint.inbox ++ endpoint.stream ++ more = pending.flatMap serialize) :
    (∃ msg ms bytes, pending = msg :: ms ∧ bytes ++ more = ms.flatMap serialize ∧
      endpoint.try_recv deserialize_from = (.ok (some msg), ⟨bytes, []⟩)) ∨
    endpoint.try_recv deserialize_from = (.ok none, ⟨endpoint.inbox ++ endpoint.stream, []⟩) ∧
      ¬ Yields deserialize_from (endpoint.inbox ++ endpoint.stream) := by
  rcases deserialize_cases hf h with ⟨msg, ms, bytes, hp, hinbox, hd, hms⟩ | hd
  · left
    refine ⟨msg, ms, bytes, hp, hms, ?_⟩
    have hdrop : (endpoint.inbox ++ endpoint.stream).drop
        ((endpoint.inbox ++ endpoint.stream).length - bytes.length) = bytes := by
      rw [hinbox, List.length_append, Nat.add_sub_cancel, List.drop_left]
    rw [NetEndpoint.try_recv, hd]
    simp only [hdrop]
  · right
    constructor
    · rw [NetEndpoint.try_recv, hd]
    · rintro ⟨msg, bytes, hok⟩
      rw [hd] at hok
      cases hok

theorem not_yields_nil : ¬ Yields deserialize_from [] := by
  rintro ⟨msg, bytes, hok⟩
  obtain ⟨other, _⟩ := exists_pair_ne M
  rw [hf.fragment other [] List.nil_prefix (serialize_ne_nil hf other).symm] at hok
  cases hok

-- A message has been taken out of an endpoint, which keeps its mark while there is something left.
theorem Tried.received {exts : List NetEndpoint} {index : Nat} (hlt : index < exts.length) (polled : List Nat)
    (bytes : List UInt8) :
    Tried deserialize_from (index :: polled) exts
      ⟨exts.set index ⟨bytes, []⟩, if bytes.isEmpty then polled else VecSet.insert index polled⟩ := by
  cases bytes with
  | nil => exact .set hlt (fun _ => not_yields_nil hf) (fun _ hi => hi) fun i hi => List.mem_cons_of_mem index hi
  | cons b bytes =>
    refine .set hlt (fun hi => absurd (VecSet.mem_insert.mpr (.inl rfl)) hi)
      (fun i hi => VecSet.mem_insert.mpr (.inr hi)) fun i hi => ?_
    exact List.mem_cons.mpr (VecSet.mem_insert.mp hi)

theorem try_recv_polled_cases {polled : List Nat} {exts : List NetEndpoint} {more : Nat → List UInt8}
    {pending : Nat → List M} (hp : ∀ index ∈ polled, index < exts.length)
    (hc : Carries serialize exts more pending) :
    ∃ store, Tried deserialize_from polled exts store ∧
      (EndpointStore.try_recv_polled deserialize_from polled exts = (.ok none, store) ∧
        store.polled_undrained = [] ∧ Carries serialize store.endpoint_exts more pending ∨
      ∃ index msg ms, index < exts.length ∧ pending index = msg :: ms ∧
        EndpointStore.try_recv_polled deserialize_from polled exts = (.ok (some (index, msg)), store) ∧
        Carries serialize store.endpoint_exts more (Function.update pending index ms)) := by
  induction polled generalizing exts with
  | nil => exact ⟨⟨exts, []⟩, ⟨rfl, fun _ h => h, fun _ _ h hn => .inl ⟨h, hn⟩⟩, .inl ⟨rfl, rfl, hc⟩⟩
  | cons index polled ih =>
    obtain ⟨hlt, hp⟩ := List.forall_mem_cons.mp hp
    have hget : exts[index]? = some exts[index] := List.getElem?_eq_getElem hlt
    obtain ⟨msg, ms, bytes, hpending, hms, ht⟩ | ⟨ht, hy⟩ := try_recv_cases hf (hc index _ hget)
    · have hset := carries_set ⟨bytes, []⟩ hc (by rw [List.append_nil]; exact hms)
      refine ⟨_, .received hf hlt polled bytes, .inr ⟨index, msg, ms, hlt, hpending, ?_, hset⟩⟩
      rw [EndpointStore.try_recv_polled, hget]
      simp only [ht]
    · obtain ⟨store, htried, hcases⟩ := ih (fun i hi => List.length_set.symm ▸ hp i hi) (hc.read hget)
      have hstep : EndpointStore.try_recv_polled deserialize_from (index :: polled) exts =
          EndpointStore.try_recv_polled deserialize_from polled
            (exts.set index ⟨exts[index].inbox ++ exts[index].stream, []⟩) := by
        rw [EndpointStore.try_recv_polled, hget]
        simp only [ht]
      rw [List.length_set] at hcases
      rw [hstep]
      exact ⟨store, htried.cons hlt hy, hcases⟩

theorem setup_recv_cases {store : EndpointStore} {index : Nat} {more : Nat → List UInt8}
    {pending : Nat → List M} (hlt : index < store.endpoint_exts.length)
    (hc : Carries serialize store.endpoint_exts more pending) :
    ∃ store', Tried deserialize_from (index :: store.polled_undrained) store.endpoint_exts store' ∧
      (∀ endpoint, store'.endpoint_exts[index]? = some endpoint → endpoint.stream = []) ∧
      (store.setup_recv deserialize_from index = (.ok none, store') ∧
        Carries serialize store'.endpoint_exts more pending ∨
      ∃ msg ms, pending index = msg :: ms ∧
        store.setup_recv deserialize_from index = (.ok (some msg), store') ∧
        Carries serialize store'.endpoint_exts more (Function.update pending index ms)) := by
  have hget : store.endpoint_exts[index]? = some store.endpoint_exts[index] := List.getElem?_eq_getElem hlt
  have hread (inbox : List UInt8) : ∀ endpoint,
      (store.endpoint_exts.set index ⟨inbox, []⟩)[index]? = some endpoint → endpoint.stream = [] := by
    intro endpoint he
    rw [List.getElem?_set_self hlt] at he
    cases he
    rfl
  obtain ⟨msg, ms, bytes, hpending, hms, ht⟩ | ⟨ht, hy⟩ := try_recv_cases hf (hc index _ hget)
  · have hset := carries_set ⟨bytes, []⟩ hc (by rw [List.append_nil]; exact hms)
    refine ⟨_, .received hf hlt store.polled_undrained bytes, hread bytes, .inr ⟨msg, ms, hpending, ?_, hset⟩⟩
    rw [EndpointStore.setup_recv, hget]
    simp only [ht]
    cases bytes <;> rfl
  · refine ⟨⟨store.endpoint_exts.set index
      ⟨store.endpoint_exts[index].inbox ++ store.endpoint_exts[index].stream, []⟩, store.polled_undrained⟩,
      .set hlt (fun _ => hy) (fun _ hi => hi) fun i hi => List.mem_cons_of_mem index hi, hread _,
      .inl ⟨?_, hc.read hget⟩⟩
    rw [EndpointStore.setup_recv, hget]
    simp only [ht]
    rfl

end Receiving

-- What holds of the endpoints in every state.
structure Inv (serialize : M → List UInt8) (deserialize_from : List UInt8 → Deserialized M) (s : Transport M) :
    Prop where
  marked  : ∀ index ∈ s.store.polled_undrained, index < s.store.endpoint_exts.length
  carries : ∃ pending, (∀ index, s.sent index = s.received index ++ pending index) ∧
            Carries serialize s.store.endpoint_exts s.wire pending
  drained : ∀ index endpoint, s.store.endpoint_exts[index]? = some endpoint →
            index ∉ s.store.polled_undrained → ¬ Yields deserialize_from endpoint.inbox
  waiting : ∀ index endpoint, s.store.endpoint_exts[index]? = some endpoint →
            index ∉ s.store.polled_undrained → s.ready index = false → endpoint.stream = []

section Arriving

variable {s : Transport M}

theorem sent_of_received {sent received pending : Nat → List M} {index : Nat} {msg : M} {ms : List M}
    (hsent : ∀ i, sent i = received i ++ pending i) (hpending : pending index = msg :: ms) (i : Nat) :
    sent i = Function.update received index (received index ++ [msg]) i ++ Function.update pending index ms i := by
  by_cases hi : i = index
  case pos =>
    subst hi
    rw [Function.update_self, Function.update_self, List.append_assoc, hsent i, hpending]
    rfl
  case neg => rw [Function.update_of_ne hi, Function.update_of_ne hi, hsent i]

theorem Inv.sends {index : Nat} (h : s.Inv serialize deserialize_from) (msg : M) :
    ({ s with
      wire := Function.update s.wire index (s.wire index ++ serialize msg)
      sent := Function.update s.sent index (s.sent index ++ [msg]) } : Transport M).Inv serialize
        deserialize_from := by
  obtain ⟨pending, hsent, hc⟩ := h.carries
  refine ⟨h.marked, ⟨Function.update pending index (pending index ++ [msg]), fun i => ?_, fun i e he => ?_⟩,
    h.drained, h.waiting⟩
  · by_cases hi : i = index
    case pos =>
      subst hi
      dsimp only
      rw [Function.update_self, Function.update_self, ← List.append_assoc, hsent i]
    case neg =>
      dsimp only
      rw [Function.update_of_ne hi, Function.update_of_ne hi, hsent i]
  · by_cases hi : i = index
    case pos =>
      subst hi
      dsimp only
      rw [Function.update_self, Function.update_self, ← List.append_assoc, hc i e he, List.flatMap_append,
        List.flatMap_singleton]
    case neg =>
      dsimp only
      rw [Function.update_of_ne hi, Function.update_of_ne hi, hc i e he]

theorem Inv.arrives {index : Nat} {endpoint : NetEndpoint} {bytes rest : List UInt8}
    (h : s.Inv serialize deserialize_from) (hget : s.store.endpoint_exts[index]? = some endpoint)
    (hwire : s.wire index = bytes ++ rest) :
    ({ s with
      store := { s.store with
        endpoint_exts := s.store.endpoint_exts.set index ⟨endpoint.inbox, endpoint.stream ++ bytes⟩ }
      wire  := Function.update s.wire index rest
      ready := Function.update s.ready index true } : Transport M).Inv serialize deserialize_from := by
  obtain ⟨hlt, _⟩ := List.getElem?_eq_some_iff.mp hget
  obtain ⟨pending, hsent, hc⟩ := h.carries
  refine ⟨fun i hi => List.length_set.symm ▸ h.marked i hi, ⟨pending, hsent, fun i e he => ?_⟩,
    fun i e he hi => ?_, fun i e he hi hr => ?_⟩
  · dsimp only at he
    by_cases hne : index = i
    case pos =>
      subst hne
      rw [List.getElem?_set_self hlt] at he
      cases he
      dsimp only
      rw [Function.update_self, ← hc index endpoint hget, hwire]
      simp only [List.append_assoc]
    case neg =>
      rw [List.getElem?_set_ne hne] at he
      dsimp only
      rw [Function.update_of_ne (Ne.symm hne)]
      exact hc i e he
  · dsimp only at he
    by_cases hne : index = i
    case pos =>
      subst hne
      rw [List.getElem?_set_self hlt] at he
      cases he
      exact h.drained index endpoint hget hi
    case neg =>
      rw [List.getElem?_set_ne hne] at he
      exact h.drained i e he hi
  · dsimp only at he hr
    by_cases hne : index = i
    case pos =>
      subst hne
      rw [Function.update_self] at hr
      cases hr
    case neg =>
      rw [List.getElem?_set_ne hne] at he
      rw [Function.update_of_ne (Ne.symm hne)] at hr
      exact h.waiting i e he hi hr

-- Where a call has tried to receive, the endpoints that are not marked have nothing to yield.
theorem Inv.tried {polled : List Nat} {store : EndpointStore} (h : s.Inv serialize deserialize_from)
    (htried : Tried deserialize_from polled s.store.endpoint_exts store)
    (hsub : ∀ index ∈ s.store.polled_undrained, index ∈ polled) :
    ∀ index endpoint, store.endpoint_exts[index]? = some endpoint → index ∉ store.polled_undrained →
      ¬ Yields deserialize_from endpoint.inbox ∧ (s.ready index = false → endpoint.stream = []) := by
  intro i e he hi
  obtain ⟨hsame, hn⟩ | hd := htried.others i e he hi
  · have hunmarked : i ∉ s.store.polled_undrained := fun hm => hn (hsub i hm)
    exact ⟨h.drained i e hsame hunmarked, h.waiting i e hsame hunmarked⟩
  · exact ⟨hd.2, fun _ => hd.1⟩

theorem Inv.polls {events : List Nat} (h : s.Inv serialize deserialize_from)
    (hevents : ∀ index ∈ events, index < s.store.endpoint_exts.length) :
    ({ s with
      store := s.store.poll_and_populate events
      ready := fun index => s.ready index && decide (index ∉ events) } : Transport M).Inv serialize
        deserialize_from := by
  refine ⟨fun i hi => ?_, h.carries, fun i e he hi => ?_, fun i e he hi hr => ?_⟩
  · rcases EndpointStore.mem_poll_and_populate.mp hi with hevent | hpolled
    · exact hevents i hevent
    · exact h.marked i hpolled
  · exact h.drained i e he fun hpolled => hi (EndpointStore.mem_poll_and_populate.mpr (.inr hpolled))
  · have hn : i ∉ events := fun hevent => hi (EndpointStore.mem_poll_and_populate.mpr (.inl hevent))
    dsimp only at hr
    rw [decide_eq_true hn, Bool.and_true] at hr
    exact h.waiting i e he (fun hpolled => hi (EndpointStore.mem_poll_and_populate.mpr (.inr hpolled))) hr

end Arriving

section Invariant

variable [Nontrivial M] (hf : Framed serialize deserialize_from) {s s' : Transport M}
include hf

theorem Inv.init (h : (transport serialize deserialize_from).Init s) : s.Inv serialize deserialize_from := by
  obtain ⟨hempty, hpolled, hwire, hready, hsent, hreceived⟩ := h
  have hall (index : Nat) (endpoint : NetEndpoint) (he : s.store.endpoint_exts[index]? = some endpoint) :
      endpoint = ⟨[], []⟩ := hempty endpoint (List.mem_of_getElem? he)
  refine ⟨?_, ⟨fun _ => [], ?_, ?_⟩, ?_, ?_⟩
  · rw [hpolled]
    exact fun _ hi => absurd hi List.not_mem_nil
  · intro index
    rw [hsent, hreceived]
    rfl
  · intro index endpoint he
    rw [hall index endpoint he, hwire]
    rfl
  · intro index endpoint he _
    rw [hall index endpoint he]
    exact not_yields_nil hf
  · intro index endpoint he _ _
    rw [hall index endpoint he]

-- A call of `try_recv_undrained_net` yields the next message of some endpoint, or it drains them all.
theorem Inv.try_recv (h : s.Inv serialize deserialize_from) :
    (∃ store, s.store.try_recv_undrained_net deserialize_from = (.ok none, store) ∧
      ({ s with store := store } : Transport M).Inv serialize deserialize_from ∧
      store.polled_undrained = [] ∧ store.endpoint_exts.length = s.store.endpoint_exts.length) ∨
    ∃ index msg store, s.store.try_recv_undrained_net deserialize_from = (.ok (some (index, msg)), store) ∧
      (s.deliver index msg store).Inv serialize deserialize_from ∧ index < s.store.endpoint_exts.length ∧
      (s.received index).length < (s.sent index).length ∧
      store.endpoint_exts.length = s.store.endpoint_exts.length := by
  obtain ⟨pending, hsent, hc⟩ := h.carries
  obtain ⟨store, htried, hcases⟩ := try_recv_polled_cases hf h.marked hc
  have hmarked : ∀ index ∈ store.polled_undrained, index < store.endpoint_exts.length :=
    fun i hi => htried.length.symm ▸ h.marked i (htried.marked i hi)
  have hclear := h.tried htried fun _ hi => hi
  have hdrained := fun i e he hi => (hclear i e he hi).1
  have hwaiting := fun i e he hi => (hclear i e he hi).2
  rcases hcases with ⟨ht, hnil, hc'⟩ | ⟨index, msg, ms, hlt, hpending, ht, hc'⟩
  · exact .inl ⟨store, ht, ⟨hmarked, ⟨pending, hsent, hc'⟩, hdrained, hwaiting⟩, hnil, htried.length⟩
  · right
    refine ⟨index, msg, store, ht, ⟨hmarked, ⟨_, sent_of_received hsent hpending, hc'⟩, hdrained, hwaiting⟩, hlt,
      ?_, htried.length⟩
    rw [hsent index, hpending, List.length_append, List.length_cons]
    omega

-- An endpoint that is set up and tries to receive has read all that there was.
theorem Inv.setup_recv {index : Nat} (h : s.Inv serialize deserialize_from)
    (hlt : index < s.store.endpoint_exts.length) :
    ∃ store, store.endpoint_exts.length = s.store.endpoint_exts.length ∧
      (s.store.setup_recv deserialize_from index = (.ok none, store) ∧
        ({ s with store := store, ready := Function.update s.ready index false } : Transport M).Inv serialize
          deserialize_from ∨
      ∃ msg, s.store.setup_recv deserialize_from index = (.ok (some msg), store) ∧
        ({ s.deliver index msg store with ready := Function.update s.ready index false } : Transport M).Inv
          serialize deserialize_from) := by
  obtain ⟨pending, hsent, hc⟩ := h.carries
  obtain ⟨store, htried, hread, hcases⟩ := setup_recv_cases hf hlt hc
  have hmarked : ∀ index ∈ store.polled_undrained, index < store.endpoint_exts.length := by
    intro i hi
    rw [htried.length]
    rcases List.mem_cons.mp (htried.marked i hi) with rfl | hpolled
    · exact hlt
    · exact h.marked i hpolled
  have hclear := h.tried htried fun i hi => List.mem_cons_of_mem index hi
  have hdrained := fun i e he hi => (hclear i e he hi).1
  have hwaiting : ∀ i endpoint, store.endpoint_exts[i]? = some endpoint → i ∉ store.polled_undrained →
      Function.update s.ready index false i = false → endpoint.stream = [] := by
    intro i e he hi hr
    by_cases hne : i = index
    case pos =>
      subst hne
      exact hread e he
    case neg =>
      rw [Function.update_of_ne hne] at hr
      exact (hclear i e he hi).2 hr
  refine ⟨store, htried.length, ?_⟩
  rcases hcases with ⟨ht, hc'⟩ | ⟨msg, ms, hpending, ht, hc'⟩
  · exact .inl ⟨ht, hmarked, ⟨pending, hsent, hc'⟩, hdrained, hwaiting⟩
  · exact .inr ⟨msg, ht, hmarked, ⟨_, sent_of_received hsent hpending, hc'⟩, hdrained, hwaiting⟩

theorem Inv.step {act : Act M} (h : s.Inv serialize deserialize_from)
    (hs : (transport serialize deserialize_from).Step s act s') :
    s'.Inv serialize deserialize_from ∧ act ≠ .fails := by
  cases hs with
  | @sends index msg   => exact ⟨h.sends msg, by rintro ⟨⟩⟩
  | arrives hget hwire => exact ⟨h.arrives hget hwire, by rintro ⟨⟩⟩
  | polls hevents      => exact ⟨h.polls hevents, by rintro ⟨⟩⟩
  | receives ht =>
    rcases h.try_recv hf with ⟨store, ht', -⟩ | ⟨index, msg, store, ht', hinv, -⟩
    · rw [ht] at ht'
      cases ht'
    · rw [ht] at ht'
      cases ht'
      exact ⟨hinv, by rintro ⟨⟩⟩
  | nothing ht =>
    rcases h.try_recv hf with ⟨store, ht', hinv, -⟩ | ⟨index, msg, store, ht', -⟩
    · rw [ht] at ht'
      cases ht'
      exact ⟨hinv, by rintro ⟨⟩⟩
    · rw [ht] at ht'
      cases ht'
  | fails ht =>
    rcases h.try_recv hf with ⟨store, ht', -⟩ | ⟨index, msg, store, ht', -⟩
    all_goals
      rw [ht] at ht'
      cases ht'
  | setup hlt ht =>
    obtain ⟨store, -, ⟨ht', -⟩ | ⟨msg, ht', hinv⟩⟩ := h.setup_recv hf hlt
    · rw [ht] at ht'
      cases ht'
    · rw [ht] at ht'
      cases ht'
      exact ⟨hinv, by rintro ⟨⟩⟩
  | setup_nothing hlt ht =>
    obtain ⟨store, -, ⟨ht', hinv⟩ | ⟨msg, ht', -⟩⟩ := h.setup_recv hf hlt
    · rw [ht] at ht'
      cases ht'
      exact ⟨hinv, by rintro ⟨⟩⟩
    · rw [ht] at ht'
      cases ht'
  | setup_fails hlt ht =>
    obtain ⟨store, -, ⟨ht', -⟩ | ⟨msg, ht', -⟩⟩ := h.setup_recv hf hlt
    all_goals
      rw [ht] at ht'
      cases ht'

theorem Inv.of_reachable (h : (transport serialize deserialize_from).Reachable s) :
    s.Inv serialize deserialize_from := by
  refine h.invariant (I := Inv serialize deserialize_from) ?_ ?_
  · exact fun hi => Inv.init hf hi
  · exact fun _ hi hs => (Inv.step hf hi hs).1

omit [Nontrivial M] in
-- An endpoint without a mark, without an event and without bytes under way has yielded all its messages.
theorem Inv.received_eq {index : Nat} {endpoint : NetEndpoint} (h : s.Inv serialize deserialize_from)
    (hget : s.store.endpoint_exts[index]? = some endpoint) (hi : index ∉ s.store.polled_undrained)
    (hwire : s.wire index = []) (hready : s.ready index = false) : s.received index = s.sent index := by
  obtain ⟨pending, hsent, hc⟩ := h.carries
  have hbytes := hc index endpoint hget
  rw [h.waiting index endpoint hget hi hready, hwire, List.append_nil] at hbytes
  rw [hsent index]
  cases hp : pending index with
  | nil => rw [List.append_nil]
  | cons msg ms =>
    rw [hp, List.append_nil, List.flatMap_cons] at hbytes
    exact absurd ⟨msg, _, hbytes ▸ hf.complete msg _⟩ (h.drained index endpoint hget hi)

theorem Drains.received_eq (hd : Drains deserialize_from s s') (h : s.Inv serialize deserialize_from)
    (hwire : ∀ index, s.wire index = []) (hready : ∀ index, s.ready index = false) {index : Nat}
    (hlt : index < s.store.endpoint_exts.length) : s'.received index = s.sent index := by
  induction hd with
  | @done s store ht =>
    rcases h.try_recv hf with ⟨store', ht', hinv, hnil, hlen⟩ | ⟨i, msg, store', ht', -⟩
    · rw [ht] at ht'
      cases ht'
      have hget : store.endpoint_exts[index]? = some _ := List.getElem?_eq_getElem (hlen ▸ hlt)
      exact hinv.received_eq hf hget (hnil ▸ List.not_mem_nil) (hwire index) (hready index)
    · rw [ht] at ht'
      cases ht'
  | @next s i msg store s' ht hd ih =>
    rcases h.try_recv hf with ⟨store', ht', -⟩ | ⟨i', msg', store', ht', hinv, -, -, hlen⟩
    · rw [ht] at ht'
      cases ht'
    · rw [ht] at ht'
      cases ht'
      exact ih hinv hwire hready (hlen ▸ hlt)

-- Every message that is received leaves fewer of them.
theorem Inv.drains (h : s.Inv serialize deserialize_from) : ∃ s', Drains deserialize_from s s' := by
  induction hn : ∑ index ∈ Finset.range s.store.endpoint_exts.length,
      ((s.sent index).length - (s.received index).length) using Nat.strong_induction_on generalizing s with
  | h n ih =>
    rcases h.try_recv hf with ⟨store, ht, -⟩ | ⟨index, msg, store, ht, hinv, hlt, hpending, hlen⟩
    · exact ⟨_, .done ht⟩
    · have hle (i : Nat) : (s.sent i).length - ((s.deliver index msg store).received i).length ≤
          (s.sent i).length - (s.received i).length := by
        by_cases hi : i = index
        case pos =>
          subst hi
          rw [deliver_received, List.length_append]
          omega
        case neg => rw [deliver_received_ne hi]
      have hsum := Finset.sum_lt_sum (fun i _ => hle i)
        ⟨index, Finset.mem_range.mpr hlt, by rw [deliver_received, List.length_append, List.length_singleton]; omega⟩
      obtain ⟨s', hd⟩ := ih _ (hn ▸ hsum) hinv (by rw [← hlen]; rfl)
      exact ⟨s', .next ht hd⟩

end Invariant

-- The messages that were received by an endpoint are the first ones that were sent to it, in their order.
-- Those that can be yielded are never behind an endpoint without a mark, and when all bytes have arrived,
-- and the events were polled, then all the messages are received.
theorem framing [Nontrivial M] (hf : Framed serialize deserialize_from) {s : Transport M}
    (h : (transport serialize deserialize_from).Reachable s) :
    (∀ index, s.received index <+: s.sent index) ∧
    (∀ index endpoint, s.store.endpoint_exts[index]? = some endpoint →
      Yields deserialize_from endpoint.inbox → index ∈ s.store.polled_undrained) ∧
    (∀ act s', (transport serialize deserialize_from).Step s act s' → act ≠ .fails) ∧
    (∃ s', Drains deserialize_from s s') ∧
    ∀ s', Drains deserialize_from s s' → (∀ index, s.wire index = []) → (∀ index, s.ready index = false) →
      ∀ index < s.store.endpoint_exts.length, s'.received index = s.sent index := by
  have hinv := Inv.of_reachable hf h
  refine ⟨?_, ?_, ?_, hinv.drains hf, ?_⟩
  · intro index
    obtain ⟨pending, hsent, -⟩ := hinv.carries
    exact ⟨pending index, (hsent index).symm⟩
  · intro index endpoint hget hy
    by_contra hi
    exact hinv.drained index endpoint hget hi hy
  · exact fun act s' hs => (hinv.step hf hs).2
  · exact fun s' hd hwire hready index hlt => hd.received_eq hf hinv hwire hready hlt

end Transport

-- Numbers of sixteen bits take one byte, or a mark and two bytes.
def serialize_u16 (v : UInt16) : List UInt8 :=
  if v.toNat < 251 then [UInt8.ofNat v.toNat] else [251, UInt8.ofNat v.toNat, UInt8.ofNat (v.toNat / 256)]

def deserialize_two : List UInt8 → Deserialized UInt16
  | lo :: hi :: bytes => .ok (UInt16.ofNat (lo.toNat + 256 * hi.toNat)) bytes
  | _                 => .unexpected_eof

def deserialize_u16 : List UInt8 → Deserialized UInt16
  | [] => .unexpected_eof
  | b :: bytes =>
    if b.toNat < 251 then .ok (UInt16.ofNat b.toNat) bytes
    else if b = 251 then deserialize_two bytes
    else .invalid

theorem framed_u16 : Framed serialize_u16 deserialize_u16 where
  complete v bytes := by
    have hlt := v.toNat_lt
    unfold serialize_u16
    split
    case isTrue h =>
      have hb : (UInt8.ofNat v.toNat).toNat = v.toNat := by
        rw [UInt8.toNat_ofNat']
        omega
      rw [List.singleton_append, deserialize_u16, hb, if_pos h, UInt16.ofNat_toNat]
    case isFalse =>
      have hv : (UInt8.ofNat v.toNat).toNat + 256 * (UInt8.ofNat (v.toNat / 256)).toNat = v.toNat := by
        rw [UInt8.toNat_ofNat', UInt8.toNat_ofNat']
        omega
      rw [List.cons_append, deserialize_u16, if_neg (by decide), if_pos rfl]
      rw [List.cons_append, List.singleton_append, deserialize_two, hv, UInt16.ofNat_toNat]
  fragment v bytes hp hne := by
    unfold serialize_u16 at hp hne
    split at hp
    case isTrue h =>
      rw [if_pos h] at hne
      rcases List.prefix_cons_iff.mp hp with rfl | ⟨t, rfl, ht⟩
      · rfl
      · exact absurd (by rw [List.prefix_nil.mp ht]) hne
    case isFalse h =>
      rw [if_neg h] at hne
      rcases List.prefix_cons_iff.mp hp with rfl | ⟨_, rfl, h₁⟩
      · rfl
      · rcases List.prefix_cons_iff.mp h₁ with rfl | ⟨_, rfl, h₂⟩
        · rfl
        · rcases List.prefix_cons_iff.mp h₂ with rfl | ⟨_, rfl, h₃⟩
          · rfl
          · exact absurd (by rw [List.prefix_nil.mp h₃]) hne

namespace Transport

-- A message arrives in two parts, the second one of them with the next message.
theorem framing_split :
    ∃ s : Transport UInt16, s.sent 0 = [300, 7] ∧ s.received 0 = [300] ∧ s.store = ⟨[⟨[7], []⟩], [0]⟩ ∧
      s.received 0 <+: s.sent 0 ∧ ∃ s', Drains deserialize_u16 s s' ∧ s'.received 0 = [300, 7] := by
  let s₀ : Transport UInt16 :=
    ⟨⟨[⟨[], []⟩], []⟩, fun _ => [], fun _ => false, fun _ => [], fun _ => []⟩
  have h₀ : (transport serialize_u16 deserialize_u16).Reachable s₀ :=
    .init ⟨fun _ h => List.mem_singleton.mp h, rfl, rfl, rfl, rfl, rfl⟩
  have h₁ := h₀.step (a := Act.sends 0 300) (.sends (by decide))
  have h₂ := h₁.step (a := Act.sends 0 7) (.sends (by decide))
  have h₃ := h₂.step (a := Act.arrives 0 [251, 44]) (.arrives rfl rfl)
  have h₄ := h₃.step (a := Act.polls [0]) (.polls (by decide))
  have h₅ := h₄.step (a := Act.nothing) (.nothing rfl)
  have h₆ := h₅.step (a := Act.arrives 0 [1, 7]) (.arrives rfl rfl)
  have h₇ := h₆.step (a := Act.polls [0]) (.polls (by decide))
  have h₈ := h₇.step (a := Act.receives 0 300) (.receives rfl)
  have : Nontrivial UInt16 := ⟨0, 1, by decide⟩
  obtain ⟨hsub, -, -, ⟨s', hd⟩, hall⟩ := framing framed_u16 h₈
  refine ⟨_, rfl, rfl, rfl, hsub 0, s', hd, hall s' hd ?_ ?_ 0 (by decide)⟩
  · intro index
    by_cases hi : index = 0
    case pos =>
      subst hi
      rfl
    case neg =>
      simp only [deliver, Function.update_of_ne hi]
      rfl
  · intro index
    by_cases hi : index = 0
    case pos =>
      subst hi
      rfl
    case neg =>
      simp only [deliver, Function.update_of_ne hi]
      rfl

end Transport

end Reowolf
