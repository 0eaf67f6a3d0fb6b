import Reowolf.Runtime.Udp

namespace Reowolf
namespace BranchingNative

variable {port_info : PortInfoMap} {cid : ComponentId} {native_spec_var var : SpecVar}
variable {ports : List PortId} {firing : Finset PortId} {p p' : Predicate} {val : SpecVal}
variable {batch batch' : NativeBatch} {order : BatchOrder} {i j : Nat}

-- The loops assign one value to the variables of the ports that they visit.
theorem assign_firing_value (h : assign_firing port_info ports p = .ok p') :
    p'.query var = some .FIRING ↔
    (∃ port ∈ ports, port_info.spec_var_for port = some var) ∨ p.query var = some .FIRING := by
  induction ports generalizing p with
  | nil =>
    cases h
    exact ⟨.inr, fun h => h.resolve_left fun h => List.not_mem_nil h.choose_spec.1⟩
  | cons port ports ih =>
    simp only [assign_firing, SyncResult.bind_eq_ok, SyncResult.unwrap_eq_ok] at h
    obtain ⟨var', hv, h⟩ := h
    rw [ih h, Predicate.query_inserted, List.exists_mem_cons_iff, hv, or_assoc, or_left_comm]
    apply or_congr_right
    by_cases he : var = var'
    case pos => simp [he]
    case neg => simp [he, Ne.symm he]

theorem assign_silent_value (h : assign_silent port_info firing ports p = .ok (some p')) :
    (p'.query var = some .FIRING ↔ p.query var = some .FIRING) ∧
    (p.query var = some .FIRING → ∀ port ∈ ports, port_info.spec_var_for port = some var → port ∈ firing) := by
  induction ports generalizing p with
  | nil =>
    cases h
    exact ⟨Iff.rfl, fun _ _ hm => absurd hm List.not_mem_nil⟩
  | cons port ports ih =>
    simp only [assign_silent] at h
    split at h
    case isTrue hf =>
      obtain ⟨hq, hall⟩ := ih h
      refine ⟨hq, fun hp => List.forall_mem_cons.mpr ⟨fun _ => hf, hall hp⟩⟩
    case isFalse hf =>
      simp only [SyncResult.bind_eq_ok, SyncResult.unwrap_eq_ok] at h
      obtain ⟨var', hv, h⟩ := h
      split at h
      case isTrue => cases h
      case isFalse hn =>
        obtain ⟨hq, hall⟩ := ih h
        have hins : (p.inserted var' .SILENT).query var = some .FIRING ↔ p.query var = some .FIRING := by
          rw [Predicate.query_inserted]
          split
          case isFalse => rfl
          case isTrue he => exact iff_of_false (by decide) (he ▸ hn)
        refine ⟨hq.trans hins, fun hp => List.forall_mem_cons.mpr ⟨fun hv' => ?_, hall (hins.mpr hp)⟩⟩
        rw [hv] at hv'
        exact absurd (Option.some.inj hv' ▸ hp) hn

-- The variables of the native's ports are known, and either all of its ports with one variable fire, or
-- none of them.
structure Consistent (port_info : PortInfoMap) (cid : ComponentId) (batch : NativeBatch) : Prop where
  known  : ∀ port ∈ port_info.ports_owned_by cid, ∃ var, port_info.spec_var_for port = some var
  closed : ∀ port ∈ firing_ports batch, ∀ port' ∈ port_info.ports_owned_by cid,
           port_info.spec_var_for port' = port_info.spec_var_for port → port' ∈ firing_ports batch

theorem assign_firing_ok_iff : (∃ p', assign_firing port_info ports p = .ok p') ↔
    ∀ port ∈ ports, ∃ var, port_info.spec_var_for port = some var := by
  induction ports generalizing p with
  | nil => exact iff_of_true ⟨p, rfl⟩ fun _ hm => absurd hm List.not_mem_nil
  | cons port ports ih =>
    simp only [assign_firing, SyncResult.bind_eq_ok, SyncResult.unwrap_eq_ok, List.forall_mem_cons]
    constructor
    · rintro ⟨p', var, hv, h⟩
      exact ⟨⟨var, hv⟩, ih.mp ⟨p', h⟩⟩
    · rintro ⟨⟨var, hv⟩, h⟩
      obtain ⟨p', h⟩ := (@ih (p.inserted var .FIRING)).mpr h
      exact ⟨p', var, hv, h⟩

theorem assign_silent_known (h : assign_silent port_info firing ports p = .ok (some p')) :
    ∀ port ∈ ports, port ∉ firing → ∃ var, port_info.spec_var_for port = some var := by
  induction ports generalizing p with
  | nil => exact fun _ hm => absurd hm List.not_mem_nil
  | cons port ports ih =>
    rw [assign_silent] at h
    split at h
    case isTrue hf => exact List.forall_mem_cons.mpr ⟨fun hn => absurd hf hn, ih h⟩
    case isFalse =>
      obtain ⟨var, hv, h⟩ := SyncResult.bind_eq_ok.mp h
      split at h
      case isTrue  => cases h
      case isFalse => exact List.forall_mem_cons.mpr ⟨fun _ => ⟨var, SyncResult.unwrap_eq_ok.mp hv⟩, ih h⟩

theorem assign_silent_ok (h : ∀ port ∈ ports, ∃ var, port_info.spec_var_for port = some var ∧
      (p.query var = some .FIRING → port ∈ firing)) :
    ∃ p', assign_silent port_info firing ports p = .ok (some p') := by
  induction ports generalizing p with
  | nil => exact ⟨p, rfl⟩
  | cons port ports ih =>
    obtain ⟨⟨var, hv, hf⟩, h⟩ := List.forall_mem_cons.mp h
    rw [assign_silent]
    by_cases hm : port ∈ firing
    case pos =>
      rw [if_pos hm]
      exact ih h
    case neg =>
      rw [if_neg hm, hv, SyncResult.unwrap_some, SyncResult.ok_bind, if_neg fun hq => hm (hf hq)]
      refine ih fun port' hm' => ?_
      obtain ⟨var', hv', hf'⟩ := h port' hm'
      refine ⟨var', hv', fun hq => ?_⟩
      rw [Predicate.query_inserted] at hq
      split at hq
      case isTrue  => exact absurd hq (by decide)
      case isFalse => exact hf' hq

-- The predicate of a batch marks as firing what the batch fires, and it ends with the value that tells
-- the batches apart.
theorem batch_predicate_value
    (h : batch_predicate port_info cid native_spec_var val batch order = .ok (some p)) :
    p.query native_spec_var = some val ∧ Consistent port_info cid batch ∧
    ∀ var ≠ native_spec_var, p.query var = some .FIRING ↔
      ∃ port ∈ firing_ports batch, port_info.spec_var_for port = some var := by
  simp only [batch_predicate, SyncResult.bind_eq_ok, SyncResult.choose_eq_ok,
    SyncResult.pure_eq_ok, Option.map_eq_some_iff] at h
  obtain ⟨_, hf, _, ho, p₁, h₁, p₂, h₂, p₃, hp₂, hp⟩ := h
  subst hp hp₂
  have hfiring {var} : p₁.query var = some .FIRING ↔
      ∃ port ∈ firing_ports batch, port_info.spec_var_for port = some var := by
    rw [assign_firing_value h₁, Predicate.query_empty]
    simp only [hf.mem_iff, reduceCtorEq, or_false]
  have hknown : ∀ port ∈ firing_ports batch, ∃ var, port_info.spec_var_for port = some var :=
    fun port hm => assign_firing_ok_iff.mp ⟨p₁, h₁⟩ port (hf.mem_iff.mpr hm)
  refine ⟨Predicate.query_inserted_self, ⟨fun port hm => ?_, fun port hm port' ho' he => ?_⟩, fun var hne => ?_⟩
  · by_cases hfire : port ∈ firing_ports batch
    case pos => exact hknown port hfire
    case neg => exact assign_silent_known h₂ port (ho.mem_iff.mpr hm) hfire
  · obtain ⟨var, hv⟩ := hknown port hm
    exact (assign_silent_value h₂).2 (hfiring.mpr ⟨port, hm, hv⟩) port' (ho.mem_iff.mpr ho') (he.trans hv)
  · rw [Predicate.query_inserted_ne hne, (assign_silent_value h₂).1, hfiring]

theorem batch_predicate_ok (hb : firing_ports batch ⊆ port_info.ports_owned_by cid)
    (hc : Consistent port_info cid batch) (hf : Iterates order.firing (firing_ports batch))
    (ho : Iterates order.owned (port_info.ports_owned_by cid)) :
    ∃ p, batch_predicate port_info cid native_spec_var val batch order = .ok (some p) := by
  obtain ⟨p₁, h₁⟩ := (@assign_firing_ok_iff port_info order.firing ∅).mpr
    fun port hm => hc.known port (hb (hf.mem_iff.mp hm))
  obtain ⟨p₂, h₂⟩ := @assign_silent_ok port_info order.owned (firing_ports batch) p₁ fun port hm => by
    have hm := ho.mem_iff.mp hm
    obtain ⟨var, hv⟩ := hc.known port hm
    refine ⟨var, hv, fun hq => ?_⟩
    rw [assign_firing_value h₁, Predicate.query_empty] at hq
    obtain ⟨port', hm', hv'⟩ := hq.resolve_right (by rintro ⟨⟩)
    exact hc.closed port' (hf.mem_iff.mp hm') port hm (hv.trans hv'.symm)
  refine ⟨p₂.inserted native_spec_var val, ?_⟩
  simp only [batch_predicate, SyncResult.choose_pos hf, SyncResult.choose_pos ho, SyncResult.ok_bind, h₁, h₂]
  rfl

-- Only the ports that a batch fires matter to its predicate.
theorem batch_predicate_congr (h : firing_ports batch = firing_ports batch') :
    batch_predicate port_info cid native_spec_var val batch order =
      batch_predicate port_info cid native_spec_var val batch' order := by
  rw [batch_predicate, batch_predicate, h]

-- The batch with the index gets the predicate, in some order in which its ports are visited.
def Assigned (port_info : PortInfoMap) (cid : ComponentId) (native_spec_var : SpecVar)
    (batches : List NativeBatch) (i : Nat) (p : Predicate) : Prop :=
  ∃ batch order, batches[i]? = some batch ∧
  batch_predicate port_info cid native_spec_var (.iter_domain i) batch order = .ok (some p)

-- Batches that get one value of the domain do not fire the same ports.
def Separate (port_info : PortInfoMap) (cid : ComponentId) (batches : List NativeBatch) : Prop :=
  ∀ i j batch batch', i < j → i % 2 ^ 16 = j % 2 ^ 16 → batches[i]? = some batch → batches[j]? = some batch' →
  Consistent port_info cid batch → firing_ports batch ≠ firing_ports batch'

section Batches

variable {batches : List NativeBatch}

theorem iter_domain_inj : SpecVal.iter_domain i = SpecVal.iter_domain j ↔ i % 2 ^ 16 = j % 2 ^ 16 := by
  rw [SpecVal.iter_domain, SpecVal.iter_domain, SpecVal.mk.injEq, ← UInt16.toNat_inj, UInt16.toNat_ofNat',
    UInt16.toNat_ofNat']

-- There are that many values.
theorem separate_of_length_le (h : batches.length ≤ 2 ^ 16) : Separate port_info cid batches := by
  intro i j batch batch' hlt hmod hi hj
  have hi := (List.getElem?_eq_some_iff.mp hi).1
  have hj := (List.getElem?_eq_some_iff.mp hj).1
  omega

variable (hfresh : ∀ port ∈ port_info.ports_owned_by cid, port_info.spec_var_for port ≠ some native_spec_var)
variable (hb : ∀ batch ∈ batches, firing_ports batch ⊆ port_info.ports_owned_by cid)
include hfresh hb

theorem firing_ports_subset (hi : batches[i]? = some batch)
    (h : batch_predicate port_info cid native_spec_var val batch order = .ok (some p)) {order' : BatchOrder}
    {val' : SpecVal} (h' : batch_predicate port_info cid native_spec_var val' batch' order' = .ok (some p)) :
    firing_ports batch ⊆ firing_ports batch' := by
  obtain ⟨_, hc, hfires⟩ := batch_predicate_value h
  obtain ⟨_, hc', hfires'⟩ := batch_predicate_value h'
  intro port hm
  have hown := hb batch (List.mem_of_getElem? hi) hm
  obtain ⟨var, hv⟩ := hc.known port hown
  have hne : var ≠ native_spec_var := fun he => hfresh port hown (he ▸ hv)
  obtain ⟨port', hm', hv'⟩ := (hfires' var hne).mp ((hfires var hne).mpr ⟨port, hm, hv⟩)
  exact hc'.closed port' hm' port hown (hv.trans hv'.symm)

theorem distinct_iff_separate :
    (∀ i j p, Assigned port_info cid native_spec_var batches i p →
      Assigned port_info cid native_spec_var batches j p → i = j) ↔ Separate port_info cid batches := by
  constructor
  case mp =>
    intro h i j batch batch' hlt hmod hi hj hc he
    let order : BatchOrder := ⟨(firing_ports batch).toList, (port_info.ports_owned_by cid).toList, []⟩
    obtain ⟨p, hp⟩ := @batch_predicate_ok port_info cid native_spec_var (.iter_domain i) batch order
      (hb batch (List.mem_of_getElem? hi)) hc ⟨Finset.nodup_toList _, Finset.toList_toFinset _⟩
      ⟨Finset.nodup_toList _, Finset.toList_toFinset _⟩
    have hp' := hp
    rw [batch_predicate_congr he, iter_domain_inj.mpr hmod] at hp'
    exact Nat.ne_of_lt hlt (h i j p ⟨batch, order, hi, hp⟩ ⟨batch', order, hj, hp'⟩)
  case mpr =>
    have hlt : ∀ i j p, i < j → Separate port_info cid batches →
        Assigned port_info cid native_spec_var batches i p →
        ¬ Assigned port_info cid native_spec_var batches j p := by
      rintro i j p hlt hs ⟨batch, order, hi, hp⟩ ⟨batch', order', hj, hp'⟩
      have hval := (batch_predicate_value hp).1.symm.trans (batch_predicate_value hp').1
      refine hs i j batch batch' hlt (iter_domain_inj.mp (Option.some.inj hval)) hi hj
        (batch_predicate_value hp).2.1 ?_
      exact Finset.Subset.antisymm (firing_ports_subset hfresh hb hi hp hp')
        (firing_ports_subset hfresh hb hj hp' hp)
    intro hs i j p hi hj
    rcases Nat.lt_trichotomy i j with h | h | h
    · exact absurd hj (hlt i j p h hs hi)
    · exact h
    · exact absurd hi (hlt j i p h hs hj)

end Batches

section Starting

variable {cu_ports : PortInfoMap} {index : Nat} {all : List (NativeBatch × BatchOrder)}
variable {rctx rctx' : RoundCtx} {native native' : BranchingNative} {b : NativeBranch}

-- A branch of the native begins with the index, and with the inputs, of the batch that its predicate is
-- assigned to.
theorem start_batch_traces
    (h : start_batch cu_ports cid native_spec_var index batch order rctx native = .ok (rctx', native'))
    (hb : native'.branches.get? p = some b) : native.branches.get? p = some b ∨
    b = ⟨index, ∅, batch.to_get⟩ ∧
      batch_predicate cu_ports cid native_spec_var (.iter_domain index) batch order = .ok (some p) := by
  simp only [start_batch, SyncResult.bind_eq_ok] at h
  obtain ⟨maybe, hp, h⟩ := h
  cases maybe with
  | none =>
    cases h
    exact .inl hb
  | some p' =>
    simp only [SyncResult.bind_eq_ok] at h
    obtain ⟨_, _, _, _, _, _, _, _, h⟩ := h
    cases h
    rw [HashMap.get?_insert] at hb
    split at hb
    case isFalse => exact .inl hb
    case isTrue he =>
      cases hb
      exact .inr ⟨rfl, he ▸ hp⟩

theorem start_batches_traces
    (h : start_batches cu_ports cid native_spec_var index all (rctx, native) = .ok (rctx', native'))
    (hb : native'.branches.get? p = some b) : native.branches.get? p = some b ∨
    ∃ k batch order, all[k]? = some (batch, order) ∧ b = ⟨index + k, ∅, batch.to_get⟩ ∧
      batch_predicate cu_ports cid native_spec_var (.iter_domain (index + k)) batch order = .ok (some p) := by
  induction all generalizing index rctx native with
  | nil =>
    cases h
    exact .inl hb
  | cons x all ih =>
    obtain ⟨batch, order⟩ := x
    obtain ⟨⟨rctx₁, native₁⟩, h₁, h⟩ := SyncResult.bind_eq_ok.mp h
    rcases ih h with hb | ⟨k, batch', order', hk, hbr, hp⟩
    · rcases start_batch_traces h₁ hb with hb | ⟨hbr, hp⟩
      · exact .inl hb
      · exact .inr ⟨0, batch, order, rfl, hbr, hp⟩
    · rw [Nat.add_right_comm, Nat.add_assoc] at hbr hp
      exact .inr ⟨k + 1, batch', order', hk, hbr, hp⟩

end Starting

end BranchingNative

-- The call does not reach the panic on two batches with one predicate.
def SyncResult.NoDuplicate {α : Type} (x : SyncResult α) : Prop :=
  x ≠ .error (.panic .duplicateBatch)

namespace SyncResult.NoDuplicate

variable {α β : Type} {x : SyncResult α} {f : α → SyncResult β} {site : PanicSite}

theorem ok {a : α} : NoDuplicate (.ok a) := by
  rintro ⟨⟩

theorem invalid : NoDuplicate (.error .invalid : SyncResult α) := by
  rintro ⟨⟩

theorem bind (hx : x.NoDuplicate) (hf : ∀ a, x = .ok a → (f a).NoDuplicate) : (x >>= f).NoDuplicate := by
  cases x with
  | ok a    => exact hf a rfl
  | error e => exact fun h => hx (congrArg Except.error (Except.error.inj h))

theorem unwrap {o : Option α} (h : site ≠ .duplicateBatch) : (SyncResult.unwrap site o).NoDuplicate := by
  cases o with
  | some a => exact ok
  | none   => exact fun he => h (Stop.panic.inj (Except.error.inj he))

theorem assert {p : Prop} [Decidable p] (h : site = .duplicateBatch → p) :
    (SyncResult.assert site p).NoDuplicate := by
  unfold SyncResult.assert
  split
  case isTrue     => exact ok
  case isFalse hn => exact fun he => hn (h (Stop.panic.inj (Except.error.inj he)))

theorem choose {p : Prop} [Decidable p] : (SyncResult.choose p).NoDuplicate := by
  unfold SyncResult.choose
  split
  case isTrue  => exact ok
  case isFalse => exact invalid

end SyncResult.NoDuplicate

open SyncResult (NoDuplicate)

namespace BranchingNative

variable {cu_ports : PortInfoMap} {cid : ComponentId} {native_spec_var : SpecVar} {index : Nat}
variable {rctx : RoundCtx} {native : BranchingNative} {batch : NativeBatch} {order : BatchOrder}
variable {p : Predicate} {ports : List PortId} {firing : Finset PortId}

theorem assign_firing_noDuplicate : (assign_firing cu_ports ports p).NoDuplicate := by
  induction ports generalizing p with
  | nil          => exact .ok
  | cons _ _ ih  => exact .bind (.unwrap (by decide)) fun _ _ => ih

theorem assign_silent_noDuplicate : (assign_silent cu_ports firing ports p).NoDuplicate := by
  induction ports generalizing p with
  | nil => exact .ok
  | cons port ports ih =>
    rw [assign_silent]
    split
    case isTrue => exact ih
    case isFalse =>
      refine .bind (.unwrap (by decide)) fun var _ => ?_
      split
      case isTrue  => exact .ok
      case isFalse => exact ih

theorem batch_predicate_noDuplicate {val : SpecVal} :
    (batch_predicate cu_ports cid native_spec_var val batch order).NoDuplicate :=
  .bind .choose fun _ _ => .bind .choose fun _ _ => .bind assign_firing_noDuplicate fun _ _ =>
    .bind assign_silent_noDuplicate fun _ _ => .ok

theorem send_puts_noDuplicate {to_put : HashMap PortId Payload} :
    (send_puts p to_put ports rctx).NoDuplicate := by
  induction ports generalizing rctx with
  | nil => exact .ok
  | cons putter putters ih =>
    rw [send_puts]
    cases to_put.get? putter with
    | none => exact .invalid
    | some payload =>
      refine .bind (.bind (.unwrap (by decide)) fun _ _ => .ok) fun polarity _ => ?_
      refine .bind (.assert (by rintro ⟨⟩)) fun _ _ => .bind ?_ fun _ _ => ih
      exact .bind (.unwrap (by decide)) fun _ _ => .bind (.unwrap (by decide)) fun _ _ => .ok

theorem submit_if_ended_noDuplicate {branch : NativeBranch} :
    (submit_if_ended cid rctx p branch).NoDuplicate := by
  unfold submit_if_ended
  split
  case isFalse => exact .ok
  case isTrue =>
    refine .bind (.bind (.unwrap (by decide)) fun _ _ => .bind (.unwrap (by decide)) fun set _ => ?_) fun _ _ => .ok
    split
    case isTrue  => exact .ok
    case isFalse => exact .ok

theorem start_batch_noDuplicate (h : ∀ p, batch_predicate cu_ports cid native_spec_var (.iter_domain index)
      batch order = .ok (some p) → native.branches.get? p = none) :
    (start_batch cu_ports cid native_spec_var index batch order rctx native).NoDuplicate := by
  refine .bind batch_predicate_noDuplicate fun maybe hp => ?_
  cases maybe with
  | none => exact .ok
  | some p =>
    exact .bind .choose fun _ _ => .bind send_puts_noDuplicate fun _ _ =>
      .bind submit_if_ended_noDuplicate fun _ _ => .bind (.assert fun _ => h p hp) fun _ _ => .ok

-- No batch gets the predicate of one that comes before it.
theorem start_batches_noDuplicate {batches : List NativeBatch} {all : List (NativeBatch × BatchOrder)}
    (hd : ∀ i j p, Assigned cu_ports cid native_spec_var batches i p →
      Assigned cu_ports cid native_spec_var batches j p → i = j)
    (hall : ∀ k batch order, all[k]? = some (batch, order) → batches[index + k]? = some batch)
    (hnative : ∀ p b, native.branches.get? p = some b →
      ∃ i < index, Assigned cu_ports cid native_spec_var batches i p) :
    (start_batches cu_ports cid native_spec_var index all (rctx, native)).NoDuplicate := by
  induction all generalizing index rctx native with
  | nil => exact .ok
  | cons x all ih =>
    obtain ⟨batch, order⟩ := x
    have hbatch : batches[index]? = some batch := hall 0 batch order rfl
    refine .bind (start_batch_noDuplicate fun p hp => ?_) ?_
    · refine Option.eq_none_iff_forall_ne_some.mpr fun b hb => ?_
      obtain ⟨i, hlt, hi⟩ := hnative p b hb
      exact Nat.ne_of_lt hlt (hd i index p hi ⟨batch, order, hbatch, hp⟩)
    · rintro ⟨rctx₁, native₁⟩ h₁
      refine ih (fun k batch' order' hk => ?_) fun p b hb => ?_
      · rw [Nat.add_assoc, Nat.add_comm 1 k]
        exact hall (k + 1) batch' order' hk
      · rcases start_batch_traces h₁ hb with hb | ⟨-, hp⟩
        · obtain ⟨i, hlt, hi⟩ := hnative p b hb
          exact ⟨i, Nat.lt_succ_of_lt hlt, hi⟩
        · exact ⟨index, Nat.lt_succ_self index, batch, order, hbatch, hp⟩

end BranchingNative

-- Neither does anything that happens before the batches are made into branches.
section Beginning

variable {S : Type} {pd : ProtocolDescription S} {cu : ConnectorUnphased S} {comm : ConnectorCommunication}
variable {timeout : Bool} {orders : RoundOrders}

theorem nonsync_run_noDuplicate {fuel : Nat} {ctx : NonsyncProtoContext S} {state : S} :
    (nonsync_run pd fuel ctx state).NoDuplicate := by
  induction fuel generalizing ctx state with
  | zero => exact .invalid
  | succ fuel ih =>
    unfold nonsync_run
    split
    case h_1 => exact ih
    case h_2 => exact .bind (.unwrap (by decide)) fun _ _ => ih
    case h_3 => exact .bind (.unwrap (by decide)) fun _ _ => ih
    all_goals exact .ok

theorem nonsync_run_all_noDuplicate {fuel : Nat} {acc : IdAndPortState × List (ComponentId × S) × Components S} :
    (nonsync_run_all pd fuel acc).NoDuplicate := by
  induction fuel generalizing acc with
  | zero =>
    obtain ⟨ips, unrun, blocked⟩ := acc
    cases unrun with
    | nil      => exact .ok
    | cons _ _ => exact .invalid
  | succ fuel ih =>
    obtain ⟨ips, unrun, blocked⟩ := acc
    cases unrun with
    | nil => exact .ok
    | cons component unrun =>
      refine .bind nonsync_run_noDuplicate fun r _ => ?_
      obtain ⟨blocker, ctx, state⟩ := r
      cases blocker with
      | inconsistent   => exact .ok
      | componentExit  => exact ih
      | syncBlockStart => exact .bind (.assert (by rintro ⟨⟩)) fun _ _ => ih

theorem begin_round_noDuplicate (h : ∀ native_spec_var stream rctx,
      cu.ips.id_manager.new_spec_var_stream.next = some (native_spec_var, stream) →
      orders.batches.length = comm.native_batches.length →
      (BranchingNative.start_batches cu.ips.port_info cu.native_component_id native_spec_var 0
        (comm.native_batches.zip orders.batches) (rctx, ⟨∅⟩)).NoDuplicate) :
    (begin_round pd cu comm timeout orders).NoDuplicate := by
  refine .bind .choose fun _ _ => .bind nonsync_run_all_noDuplicate fun r _ => ?_
  cases r with
  | error => exact .ok
  | ok r =>
    obtain ⟨ips, branching_proto_components⟩ := r
    refine .bind .choose fun _ _ => .bind .choose fun _ hlen => .bind (.unwrap (by decide)) fun r hv => ?_
    obtain ⟨native_spec_var, stream⟩ := r
    refine .bind (h _ _ _ (SyncResult.unwrap_eq_ok.mp hv) (SyncResult.choose_eq_ok.mp hlen)) fun _ _ => .ok

end Beginning
end Reowolf
