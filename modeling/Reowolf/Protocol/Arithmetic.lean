import Mathlib.Algebra.Order.Ring.Int
import Mathlib.Algebra.Ring.Divisibility.Basic
import Mathlib.Algebra.Ring.Int.Defs
import Reowolf.Protocol.Compositional
import Reowolf.Protocol.IntegerRanges
import Reowolf.Protocol.PromptControl

namespace Reowolf

namespace IntegerType

variable {type : IntegerType} {build : Build} {op : IntOp} {l r v : Integer type}

theorem ofInt_toInt (v : Integer type) : BitVec.ofInt type.bits (toInt v) = v := by
  rw [toInt]
  split
  · exact BitVec.ofInt_toInt
  · rw [BitVec.ofInt_natCast, BitVec.ofNat_toNat, BitVec.setWidth_eq]

theorem ofInt_eq_ofInt {w : Nat} {a b : Int} :
    BitVec.ofInt w a = BitVec.ofInt w b ↔ (2 : Int) ^ w ∣ a - b := by
  rw [← BitVec.toInt_inj, BitVec.toInt_ofInt, BitVec.toInt_ofInt, Int.bmod_eq_bmod_iff_bmod_sub_eq_zero,
    ← Int.dvd_iff_bmod_eq_zero]
  norm_cast

theorem shiftLeft_eq (v : Integer type) (n : Nat) :
    v <<< n = BitVec.ofInt type.bits (toInt v * 2 ^ n) := by
  have hpow : BitVec.ofInt type.bits (2 ^ n) = BitVec.twoPow type.bits n := by
    apply BitVec.eq_of_toNat_eq
    rw [BitVec.toNat_twoPow, BitVec.toNat_ofInt]
    norm_cast
  rw [BitVec.shiftLeft_eq_mul_twoPow, BitVec.ofInt_mul, ofInt_toInt, hpow]

theorem shiftRight_eq (v : Integer type) (n : Nat) :
    (if type.signed then v.sshiftRight n else v >>> n) = BitVec.ofInt type.bits (toInt v / 2 ^ n) := by
  rw [toInt]
  split
  · rw [← BitVec.ofInt_toInt (x := v.sshiftRight n), BitVec.toInt_sshiftRight,
      Int.shiftRight_eq_div_pow]
    norm_cast
  · apply BitVec.eq_of_toNat_eq
    have hlt : v.toNat / 2 ^ n < 2 ^ type.bits := Nat.lt_of_le_of_lt (Nat.div_le_self _ _) v.isLt
    have hmod : (v.toNat : Int) / 2 ^ n % (2 ^ type.bits : Nat) =
        (v.toNat / 2 ^ n % 2 ^ type.bits : Nat) := by norm_cast
    rw [BitVec.toNat_ushiftRight, Nat.shiftRight_eq_div_pow, BitVec.toNat_ofInt, hmod, Int.toNat_natCast,
      Nat.mod_eq_of_lt hlt]

end IntegerType

namespace IntOp

variable {type : IntegerType} {build : Build} {op : IntOp} {l r v : Integer type}

-- The integer is the exact result of an operator, or its two's complement wrap-around. Nothing is the
-- result of a division by zero or of a shift by a negative number of places.
def Yields (op : IntOp) (l r v : Integer type) : Prop :=
  let l' := IntegerType.toInt l
  let r' := IntegerType.toInt r
  match op with
  | .mul => v = BitVec.ofInt type.bits (l' * r')
  | .div => r' ≠ 0 ∧ v = BitVec.ofInt type.bits (l'.tdiv r')
  | .rem => r' ≠ 0 ∧ v = BitVec.ofInt type.bits (l'.tmod r')
  | .add => v = BitVec.ofInt type.bits (l' + r')
  | .sub => v = BitVec.ofInt type.bits (l' - r')
  | .shl => 0 ≤ r' ∧ v = BitVec.ofInt type.bits (l' * 2 ^ r'.toNat)
  | .shr => 0 ≤ r' ∧ v = BitVec.ofInt type.bits (l' / 2 ^ r'.toNat)
  | .and => ∀ i, v.getLsbD i = (l.getLsbD i && r.getLsbD i)
  | .xor => ∀ i, v.getLsbD i = (l.getLsbD i ^^ r.getLsbD i)
  | .or  => ∀ i, v.getLsbD i = (l.getLsbD i || r.getLsbD i)

-- Whether a number of places is below the width.
def Within (type : IntegerType) (n : Int) : Prop :=
  0 ≤ n ∧ n < type.bits

-- The operands that an operator gives the result of: where overflow is checked there must be none, a
-- division must be possible, and a shift by the width or more must come out as the shift by the masked
-- number of places, which it does if nothing is left of the integer in both cases.
def Safe (build : Build) (op : IntOp) (l r : Integer type) : Prop :=
  let l' := IntegerType.toInt l
  let r' := IntegerType.toInt r
  let masked := r.toNat % type.bits
  match op with
  | .mul => build.overflow_checks → type.Contains (l' * r')
  | .add => build.overflow_checks → type.Contains (l' + r')
  | .sub => build.overflow_checks → type.Contains (l' - r')
  | .div | .rem => r' ≠ 0 ∧ ¬(l' = type.min ∧ r' = -1)
  | .shl => Within type r' ∨
    ¬build.overflow_checks ∧ 0 ≤ r' ∧ (2 : Int) ^ type.bits ∣ l' * 2 ^ masked
  | .shr => Within type r' ∨
    ¬build.overflow_checks ∧ 0 ≤ r' ∧ -2 ^ masked ≤ l' ∧ l' < 2 ^ masked
  | .and | .xor | .or => True

theorem checked_spec {exact : Int} :
    (∃ v, IntegerType.checked build type exact = .ok v ∧ v = BitVec.ofInt type.bits exact) ↔
      (build.overflow_checks → type.Contains exact) := by
  rw [IntegerType.checked]
  split
  case isTrue h  => exact iff_of_false (by rintro ⟨_, h, _⟩; cases h) (fun hs => h.right (hs h.left))
  case isFalse h => exact iff_of_true ⟨_, rfl, rfl⟩ (fun hb => not_not.mp (not_and.mp h hb))

theorem outside_le {n : Int} (h : ¬Within type n) (h0 : 0 ≤ n) : type.bits ≤ n.toNat := by
  have hge : ¬n < type.bits := fun hlt => h ⟨h0, hlt⟩
  omega

-- The two shifts: within the width the number of places is not changed by the mask, and outside of it
-- the results must be compared.
theorem shift_spec {shifted : Nat → Integer type} {Same : Nat → Prop}
    (h : ∀ k n, type.bits ≤ n → (shifted k = shifted n ↔ Same k)) :
    (∃ v, (IntegerType.shift_amount build r).map shifted = .ok v ∧
      0 ≤ IntegerType.toInt r ∧ v = shifted (IntegerType.toInt r).toNat) ↔
    Within type (IntegerType.toInt r) ∨
      ¬build.overflow_checks ∧ 0 ≤ IntegerType.toInt r ∧ Same (r.toNat % type.bits) := by
  rw [IntegerType.shift_amount]
  by_cases hw : Within type (IntegerType.toInt r)
  case pos =>
    have hn := IntegerType.toInt_of_nonneg hw.left
    have hlt := hw.right
    have hmod : r.toNat % type.bits = (IntegerType.toInt r).toNat := by
      rw [Nat.mod_eq_of_lt (by omega)]
      omega
    rw [if_neg fun hc => hc.right hw, hmod]
    exact iff_of_true ⟨_, rfl, hw.left, rfl⟩ (.inl hw)
  case neg =>
    simp only [hw, false_or]
    change ¬(0 ≤ _ ∧ _) at hw
    simp only [hw, not_false_eq_true, and_true]
    split
    case isTrue hc  => exact iff_of_false (by rintro ⟨_, hv, _⟩; cases hv) (fun hs => hs.left hc)
    case isFalse hc =>
      constructor
      case mp =>
        rintro ⟨v, hv, h0, hy⟩
        cases hv
        exact ⟨hc, h0, (h _ _ (outside_le hw h0)).mp hy⟩
      case mpr =>
        rintro ⟨_, h0, hs⟩
        exact ⟨_, rfl, h0, (h _ _ (outside_le hw h0)).mpr hs⟩

theorem shiftLeft_outside {k n : Nat} (h : type.bits ≤ n) :
    BitVec.ofInt type.bits (IntegerType.toInt l * 2 ^ k) =
        BitVec.ofInt type.bits (IntegerType.toInt l * 2 ^ n) ↔
      (2 : Int) ^ type.bits ∣ IntegerType.toInt l * 2 ^ k := by
  have hdvd : (2 : Int) ^ type.bits ∣ IntegerType.toInt l * 2 ^ n :=
    Dvd.dvd.mul_left (pow_dvd_pow 2 h) _
  rw [IntegerType.ofInt_eq_ofInt, dvd_sub_left hdvd]

theorem contains_div_pow (n : Nat) : type.Contains (IntegerType.toInt l / 2 ^ n) := by
  have hl := IntegerType.contains_toInt l
  have h0 := type.contains_zero
  have hpow : (0 : Int) < 2 ^ n := Int.pow_pos (by decide)
  by_cases hneg : IntegerType.toInt l < 0
  case pos =>
    have hle : IntegerType.toInt l ≤ IntegerType.toInt l / 2 ^ n := by
      rw [Int.le_ediv_iff_mul_le hpow]
      have h := Int.mul_le_mul_of_nonpos_left (Int.le_of_lt hneg) (show (1 : Int) ≤ 2 ^ n from hpow)
      rwa [Int.mul_one] at h
    exact hl.between h0 hle (Int.le_of_lt (Int.ediv_neg_of_neg_of_pos hneg hpow))
  case neg =>
    have hpos := not_lt.mp hneg
    exact h0.between hl (Int.ediv_nonneg hpos (Int.le_of_lt hpow)) (Int.ediv_le_self _ hpos)

theorem toInt_lt_two_pow (l : Integer type) :
    -2 ^ type.bits ≤ IntegerType.toInt l ∧ IntegerType.toInt l < 2 ^ type.bits := by
  have hlt : (l.toNat : Int) < 2 ^ type.bits := by exact_mod_cast l.isLt
  have hmin := BitVec.le_two_mul_toInt (x := l)
  have hmax := BitVec.two_mul_toInt_lt (x := l)
  rw [IntegerType.toInt]
  split <;> omega

-- A shift to the right by the width or more leaves nothing of an integer but its sign.
theorem shiftRight_outside {k n : Nat} (h : type.bits ≤ n) :
    BitVec.ofInt type.bits (IntegerType.toInt l / 2 ^ k) =
        BitVec.ofInt type.bits (IntegerType.toInt l / 2 ^ n) ↔
      -2 ^ k ≤ IntegerType.toInt l ∧ IntegerType.toInt l < 2 ^ k := by
  have hk : (0 : Int) < 2 ^ k := Int.pow_pos (by decide)
  have hn : (0 : Int) < 2 ^ n := Int.pow_pos (by decide)
  have hle : (2 : Int) ^ type.bits ≤ 2 ^ n := pow_le_pow_right₀ (by decide) h
  obtain ⟨hmin, hmax⟩ := toInt_lt_two_pow l
  rw [IntegerType.ofInt_inj (contains_div_pow k) (contains_div_pow n)]
  by_cases hneg : IntegerType.toInt l < 0
  case pos =>
    have hsign : IntegerType.toInt l / 2 ^ n = -1 := (Int.ediv_eq_iff_of_pos hn).mpr (by omega)
    rw [hsign, Int.ediv_eq_iff_of_pos hk]
    omega
  case neg =>
    have hsign : IntegerType.toInt l / 2 ^ n = 0 := (Int.ediv_eq_iff_of_pos hn).mpr (by omega)
    rw [hsign, Int.ediv_eq_iff_of_pos hk]
    omega

-- An operator gives the exact result or its wrap-around for exactly the safe operands.
theorem apply_spec : (∃ v, IntegerType.apply build op l r = .ok v ∧ op.Yields l r v) ↔
    op.Safe build l r := by
  cases op with
  | mul => exact checked_spec
  | add => exact checked_spec
  | sub => exact checked_spec
  | div =>
    rw [IntegerType.apply, Safe]
    split
    case isTrue h  => exact iff_of_false (by rintro ⟨_, h, _⟩; cases h) (fun hs => h.elim hs.left hs.right)
    case isFalse h =>
      obtain ⟨hr, hm⟩ := not_or.mp h
      exact iff_of_true ⟨_, rfl, hr, rfl⟩ ⟨hr, hm⟩
  | rem =>
    rw [IntegerType.apply, Safe]
    split
    case isTrue h  => exact iff_of_false (by rintro ⟨_, h, _⟩; cases h) (fun hs => h.elim hs.left hs.right)
    case isFalse h =>
      obtain ⟨hr, hm⟩ := not_or.mp h
      exact iff_of_true ⟨_, rfl, hr, rfl⟩ ⟨hr, hm⟩
  | shl =>
    have hmap : IntegerType.apply build .shl l r = (IntegerType.shift_amount build r).map
        fun n => BitVec.ofInt type.bits (IntegerType.toInt l * 2 ^ n) := by
      simp only [IntegerType.apply, IntegerType.shiftLeft_eq]
      cases IntegerType.shift_amount build r <;> rfl
    rw [hmap]
    exact shift_spec fun _ _ => shiftLeft_outside
  | shr =>
    have hmap : IntegerType.apply build .shr l r = (IntegerType.shift_amount build r).map
        fun n => BitVec.ofInt type.bits (IntegerType.toInt l / 2 ^ n) := by
      simp only [IntegerType.apply, IntegerType.shiftRight_eq]
      cases IntegerType.shift_amount build r <;> rfl
    rw [hmap]
    exact shift_spec fun _ _ => shiftRight_outside
  | and => exact iff_of_true ⟨_, rfl, fun _ => BitVec.getLsbD_and⟩ trivial
  | xor => exact iff_of_true ⟨_, rfl, fun _ => BitVec.getLsbD_xor⟩ trivial
  | or  => exact iff_of_true ⟨_, rfl, fun _ => BitVec.getLsbD_or⟩ trivial

theorem apply_error {fault : Fault} (h : IntegerType.apply build op l r = .error fault) :
    fault = .arithmetic := by
  have hchecked {exact : Int} (h : IntegerType.checked build type exact = .error fault) :
      fault = .arithmetic := by
    rw [IntegerType.checked] at h
    split at h <;> cases h
    rfl
  have hshift {f : Nat → Integer type}
      (h : (IntegerType.shift_amount build r >>= fun n => .ok (f n)) = .error fault) :
      fault = .arithmetic := by
    rw [IntegerType.shift_amount] at h
    split at h <;> cases h
    rfl
  cases op with
  | mul | add | sub => exact hchecked h
  | shl | shr       => exact hshift h
  | div | rem       =>
    rw [IntegerType.apply] at h
    split at h <;> cases h
    rfl
  | and | xor | or  => cases h

end IntOp

def BinaryOperator.int_op : BinaryOperator → Option IntOp
  | multiply   => some .mul
  | divide     => some .div
  | remainder  => some .rem
  | add        => some .add
  | subtract   => some .sub
  | shiftLeft  => some .shl
  | shiftRight => some .shr
  | bitwiseAnd => some .and
  | bitwiseXor => some .xor
  | bitwiseOr  => some .or
  | _          => none

def BinaryOperator.comparison : BinaryOperator → Option (Int → Int → Bool)
  | equality         => some (· = ·)
  | inequality       => some (· ≠ ·)
  | lessThan         => some (· < ·)
  | greaterThan      => some (· > ·)
  | lessThanEqual    => some (· ≤ ·)
  | greaterThanEqual => some (· ≥ ·)
  | _                => none

-- An operator with its operands, and for an assignment with what is assigned to.
inductive IntegerOperation (type : IntegerType)
  | binary (op : BinaryOperator) (l r : Integer type)
  | assignment (op : AssignmentOperator) (to_id : ValueId) (l r : Integer type)
  | unary (op : UnaryOperator) (v : Integer type)

namespace IntegerOperation

variable {type : IntegerType}

-- Whether the operator is one on integers.
def Typed : IntegerOperation type → Prop
  | binary op ..     => op.int_op.isSome ∨ op.comparison.isSome
  | assignment op .. => op.int_op.isSome
  | unary op _       => op ≠ .logicalNot

def Safe (build : Build) : IntegerOperation type → Prop
  | binary op l r       => ∀ int_op ∈ op.int_op, int_op.Safe build l r
  | assignment op _ l r => ∀ int_op ∈ op.int_op, int_op.Safe build l r
  | unary op v          => op = .negative →
    type.signed ∧ (build.overflow_checks → type.Contains (-IntegerType.toInt v))

-- The values and the store behind an operation that gives the exact result or its wrap-around.
inductive Result (rest : List Value) (store : Store) :
    IntegerOperation type → List Value → Store → Prop
  | integer {op int_op l r v} :
    op.int_op = some int_op → int_op.Yields l r v →
    Result rest store (.binary op l r) (rest ++ [.integer type v]) store
  | comparison {op compare l r} :
    op.comparison = some compare →
    Result rest store (.binary op l r)
      (rest ++ [.bool (compare (IntegerType.toInt l) (IntegerType.toInt r))]) store
  | assigned {op int_op to_id l r v} :
    op.int_op = some int_op → int_op.Yields l r v →
    Result rest store (.assignment op to_id l r) rest (store.overwrite (.integer type v) to_id)
  | positive {v} :
    Result rest store (.unary .positive v) (rest ++ [.integer type v]) store
  | negative {v} :
    Result rest store (.unary .negative v)
      (rest ++ [.integer type (BitVec.ofInt type.bits (-IntegerType.toInt v))]) store
  | bitwiseNot {v w : Integer type} :
    (∀ i < type.bits, w.getLsbD i = !v.getLsbD i) →
    Result rest store (.unary .bitwiseNot v) (rest ++ [.integer type w]) store

-- The operation that an expression makes of the last of the values, which may be references.
inductive Operands (store : Store) (rest : List Value) :
    Expression → List Value → IntegerOperation type → Prop
  | binary {this op left right lhs rhs l r} :
    store.maybe_read_ref lhs = .ok (.integer type l) →
    store.maybe_read_ref rhs = .ok (.integer type r) →
    Operands store rest (.binary this op left right) (rest ++ [rhs, lhs]) (.binary op l r)
  | assignment {this op left right to_id rhs l r} :
    store.read_ref to_id = .ok (.integer type l) →
    store.maybe_read_ref rhs = .ok (.integer type r) →
    Operands store rest (.assignment this op left right) (rest ++ [rhs, .ref to_id])
      (.assignment op to_id l r)
  | unary {this op expression value v} :
    store.maybe_read_ref value = .ok (.integer type v) →
    Operands store rest (.unary this op expression) (rest ++ [value]) (.unary op v)

end IntegerOperation

section Evaluation

variable {env : EvalEnv} {build : Build} {store : Store} {type : IntegerType} {l r v : Integer type}
  {value lhs rhs : Value} {rest : List Value}

theorem map_ok_iff {α β : Type} {x : Except Fault α} {f : α → β} {P : β → Prop} :
    (∃ b, x.map f = .ok b ∧ P b) ↔ ∃ a, x = .ok a ∧ P (f a) := by
  cases x with
  | error fault => exact iff_of_false nofun nofun
  | ok a        => simp only [Except.map, Except.ok.injEq, exists_eq_left']

theorem map_error_iff {α β : Type} {x : Except Fault α} {f : α → β} {fault : Fault} :
    x.map f = .error fault ↔ x = .error fault := by
  cases x <;> simp only [Except.map, Except.error.injEq, reduceCtorEq]

theorem Store.read_overwrite {id : ValueId} {old : Value} (h : store.read_ref id = .ok old) :
    (store.overwrite value id).read_ref id = .ok value := by
  cases id with
  | stack pos =>
    rw [Store.read_ref, Store.read_stack] at h
    split at h
    case h_1 hget =>
      have hlt := (List.getElem?_eq_some_iff.mp hget).choose
      have hset : (store.overwrite value (.stack pos)).stack[
          (store.overwrite value (.stack pos)).abs_pos pos]? = some value :=
        List.getElem?_set_self hlt
      rw [Store.read_ref, Store.read_stack, hset]
    case h_2 => cases h
  | heap pos idx =>
    rw [Store.read_ref, Store.read_region, Store.region] at h
    split at h
    case h_1 values hregion =>
      simp only [bind, Except.bind] at h
      split at h
      case h_1 hget =>
        have hlt := (List.getElem?_eq_some_iff.mp hget).choose
        simp only [Store.read_ref, Store.read_region, Store.region, Store.overwrite,
          List.getElem?_modify_eq, hregion, Option.map_eq_map, Option.map_some, bind, Except.bind,
          List.getElem?_set_self hlt]
      case h_2 => cases h
    case h_2 => cases h

-- An integer, or a reference to one, owns nothing.
theorem drop_integer (h : store.maybe_read_ref value = .ok (.integer type v)) :
    store.drop_value value.get_heap_pos = .ok store := by
  cases value with
  | ref id        => rfl
  | integer _ _   => rfl
  | _             => cases h

theorem read_take_ownership_integer (h : store.maybe_read_ref value = .ok (.integer type v)) :
    store.read_take_ownership value = .ok (.integer type v, store) := by
  cases value with
  | ref id      =>
    rw [Store.maybe_read_ref] at h
    rw [Store.read_take_ownership, Store.read_copy, h]
    rfl
  | integer _ _ => cases h; rfl
  | _           => cases h

theorem apply_int_op_eq {op : IntOp} :
    apply_int_op_and_return_self build op (.integer type l) (.integer type r) =
      (IntegerType.apply build op l r).map (.integer type) := by
  simp only [apply_int_op_and_return_self, Value.as_integer_self, bind, Except.bind]
  cases IntegerType.apply build op l r <;> rfl

theorem apply_equality_integer :
    apply_equality_operator store (.integer type l) (.integer type r) = .ok (decide (l = r)) := by
  rw [apply_equality_operator, Store.depth, apply_equality_operator_at]
  simp only [Store.maybe_read_ref, bind, Except.bind, Value.as_integer_self]

theorem apply_inequality_integer :
    apply_inequality_operator store (.integer type l) (.integer type r) = .ok (decide (l ≠ r)) := by
  rw [apply_inequality_operator, Store.depth, apply_inequality_operator_at]
  simp only [Store.maybe_read_ref, bind, Except.bind, Value.as_integer_self]

theorem eval_binary_eq {op : BinaryOperator} (hc : op ≠ .concatenate)
    (hl : store.maybe_read_ref lhs = .ok (.integer type l))
    (hr : store.maybe_read_ref rhs = .ok (.integer type r)) :
    eval_binary env op (rest ++ [rhs, lhs]) store =
      (apply_pure_binary_operator env.build store lhs op rhs).map (rest ++ [·], store) := by
  have hpop : pop_back (rest ++ [rhs, lhs]) = .ok (lhs, rest ++ [rhs]) := by
    rw [List.append_cons, pop_back_append]
  simp only [eval_binary, hpop, pop_back_append, apply_binary_operator, if_neg hc, bind, Except.bind]
  cases apply_pure_binary_operator env.build store lhs op rhs with
  | error fault => rfl
  | ok result   =>
    simp only [drop_integer hl, drop_integer hr]
    rfl

theorem apply_int_binary_eq {op : BinaryOperator} {int_op : IntOp} (ho : op.int_op = some int_op)
    (hl : store.maybe_read_ref lhs = .ok (.integer type l))
    (hr : store.maybe_read_ref rhs = .ok (.integer type r)) :
    apply_pure_binary_operator build store lhs op rhs =
      (IntegerType.apply build int_op l r).map (.integer type) := by
  rw [← apply_int_op_eq]
  cases op <;> cases ho <;> simp only [apply_pure_binary_operator, hl, hr] <;> rfl

theorem apply_comparison_eq {op : BinaryOperator} {compare : Int → Int → Bool}
    (ho : op.comparison = some compare)
    (hl : store.maybe_read_ref lhs = .ok (.integer type l))
    (hr : store.maybe_read_ref rhs = .ok (.integer type r)) :
    apply_pure_binary_operator build store lhs op rhs =
      .ok (.bool (compare (IntegerType.toInt l) (IntegerType.toInt r))) := by
  have hinj : l = r ↔ IntegerType.toInt l = IntegerType.toInt r :=
    ⟨congrArg _, fun h => by rw [← IntegerType.ofInt_toInt l, h, IntegerType.ofInt_toInt]⟩
  cases op <;> cases ho
  case equality =>
    simp only [apply_pure_binary_operator, hl, hr, ← hinj, bind, Except.bind, apply_equality_integer]
  case inequality =>
    simp only [apply_pure_binary_operator, hl, hr, ne_eq, ← hinj, bind, Except.bind,
      apply_inequality_integer]
  all_goals
    simp only [apply_pure_binary_operator, hl, hr, bind, Except.bind, apply_int_op_and_return_bool,
      Value.as_integer_self]

theorem apply_int_assignment_eq {op : AssignmentOperator} {int_op : IntOp} {to_id : ValueId}
    (ho : op.int_op = some int_op) (hl : store.read_ref to_id = .ok (.integer type l)) :
    apply_assignment_operator build store to_id op (.integer type r) =
      (IntegerType.apply build int_op l r).map
        fun v => store.overwrite (.integer type v) to_id := by
  cases op <;> cases ho <;>
    (simp only [apply_assignment_operator, hl, bind, Except.bind, AssignmentOperator.int_op,
      apply_int_op_eq]; cases IntegerType.apply _ _ l r <;> rfl)

theorem eval_assignment_eq {op : AssignmentOperator} {int_op : IntOp} {to_id : ValueId}
    (ho : op.int_op = some int_op) (hl : store.read_ref to_id = .ok (.integer type l))
    (hr : store.maybe_read_ref rhs = .ok (.integer type r)) :
    eval_assignment env op (rest ++ [rhs, .ref to_id]) store =
      (IntegerType.apply env.build int_op l r).map
        fun v => (rest, store.overwrite (.integer type v) to_id) := by
  have hpop : pop_back (rest ++ [rhs, .ref to_id]) = .ok (.ref to_id, rest ++ [rhs]) := by
    rw [List.append_cons, pop_back_append]
  simp only [eval_assignment, hpop, pop_back_append, Value.as_ref, bind, Except.bind,
    read_take_ownership_integer hr, apply_int_assignment_eq ho hl]
  cases IntegerType.apply env.build int_op l r <;> rfl

theorem eval_unary_eq {op : UnaryOperator} (hv : store.maybe_read_ref value = .ok (.integer type v)) :
    eval_unary env op (rest ++ [value]) store =
      (apply_unary_operator env.build store op value).map (rest ++ [·], store) := by
  simp only [eval_unary, pop_back_append, bind, Except.bind, drop_integer hv]
  cases apply_unary_operator env.build store op value <;> rfl

end Evaluation

namespace IntegerOperation

variable {env : EvalEnv} {ctx : EvalContext} {build : Build} {store : Store} {type : IntegerType}
  {l r v : Integer type} {value : Value} {expr : Expression} {values rest : List Value}
  {operation : IntegerOperation type}

-- The evaluation of an expression, as one of the arms of `Prompt::step`.
def eval (env : EvalEnv) (values : List Value) (store : Store) : IntegerOperation type → Evaluated
  | binary op ..     => eval_binary env op values store
  | assignment op .. => eval_assignment env op values store
  | unary op _       => eval_unary env op values store

theorem eval_expr_eq {frame : Frame} {frames : List Frame}
    (ho : Operands store rest expr frame.expr_values operation) :
    eval_expr env ctx frame frames expr store =
      finish_expr frame frames (operation.eval env frame.expr_values store) := by
  generalize hv : frame.expr_values = values at ho
  cases ho <;> simp only [eval_expr, eval, hv]

theorem result_binary_iff {op : BinaryOperator} {int_op : IntOp} (ho : op.int_op = some int_op) :
    Result rest store (.binary op l r) (rest ++ [.integer type v]) store ↔ int_op.Yields l r v := by
  constructor
  case mp =>
    intro h
    generalize hv : rest ++ [Value.integer type v] = values at h
    cases h with
    | integer ho' hy =>
      cases ho.symm.trans ho'
      cases List.append_cancel_left hv
      exact hy
    | comparison _ => cases List.append_cancel_left hv
  case mpr => exact .integer ho

theorem result_assignment_iff {op : AssignmentOperator} {int_op : IntOp} {to_id : ValueId}
    (ho : op.int_op = some int_op) (hl : store.read_ref to_id = .ok (.integer type l)) :
    Result rest store (.assignment op to_id l r) rest (store.overwrite (.integer type v) to_id) ↔
      int_op.Yields l r v := by
  constructor
  case mp =>
    intro h
    generalize hs : store.overwrite (.integer type v) to_id = store' at h
    cases h with
    | assigned ho' hy =>
      cases ho.symm.trans ho'
      have hread : (store.overwrite (.integer type v) to_id).read_ref to_id = .ok (.integer type v) :=
        Store.read_overwrite hl
      rw [hs, Store.read_overwrite hl] at hread
      cases hread
      exact hy
  case mpr => exact .assigned ho

theorem unary_iff {op : UnaryOperator} (ho : op ≠ .logicalNot)
    (hv : store.maybe_read_ref value = .ok (.integer type v)) :
    (∃ result, apply_unary_operator build store op value = .ok result ∧
      Result rest store (.unary op v) (rest ++ [result]) store) ↔ Safe build (.unary op v) := by
  cases op with
  | positive =>
    refine iff_of_true ⟨.integer type v, ?_, .positive⟩ nofun
    simp only [apply_unary_operator, hv]
    rfl
  | negative =>
    rcases Bool.eq_false_or_eq_true type.signed with hs | hs
    case inl =>
      have happly : apply_unary_operator build store .negative value =
          (IntegerType.checked build type (-IntegerType.toInt v)).map (.integer type) := by
        simp only [apply_unary_operator, hv, bind, Except.bind, hs, if_true]
        cases IntegerType.checked build type (-IntegerType.toInt v) <;> rfl
      rw [happly, IntegerType.checked]
      split
      case isTrue h  => exact iff_of_false nofun (fun hsafe => h.right ((hsafe rfl).right h.left))
      case isFalse h =>
        exact iff_of_true ⟨_, rfl, .negative⟩
          (fun _ => ⟨hs, fun hb => not_not.mp (not_and.mp h hb)⟩)
    case inr =>
      have happly : apply_unary_operator build store .negative value = .error .unreachable := by
        simp only [apply_unary_operator, hv, bind, Except.bind, hs, Bool.false_eq_true, if_false]
      rw [happly]
      exact iff_of_false nofun (fun hsafe => by cases hs.symm.trans (hsafe rfl).left)
  | bitwiseNot =>
    refine iff_of_true ⟨.integer type (~~~v), ?_, .bitwiseNot fun i hi => ?_⟩ nofun
    · simp only [apply_unary_operator, hv]
      rfl
    · simp only [BitVec.getLsbD_not, hi, decide_true, Bool.true_and]
  | logicalNot => exact absurd rfl ho

theorem unary_ne_error {op : UnaryOperator} (ho : op ≠ .logicalNot)
    (hv : store.maybe_read_ref value = .ok (.integer type v)) (message : String) :
    apply_unary_operator build store op value ≠ .error (.evalError message) := by
  intro h
  cases op with
  | negative =>
    simp only [apply_unary_operator, hv, bind, Except.bind, IntegerType.checked] at h
    split at h
    case isTrue  =>
      split at h
      case h_1 hc =>
        cases h
        split at hc <;> cases hc
      case h_2 => cases h
    case isFalse => cases h
  | positive | bitwiseNot =>
    simp only [apply_unary_operator, hv, bind, Except.bind] at h
    cases h
  | logicalNot => exact ho rfl

-- No operation on integers ends in an error of the evaluated program.
theorem eval_ne_error (ho : Operands store rest expr values operation) (ht : operation.Typed)
    (message : String) : operation.eval env values store ≠ .error (.evalError message) := by
  intro h
  cases ho with
  | @binary this op left right lhs rhs l r hl hr =>
    have hc : op ≠ .concatenate := by
      rintro rfl
      rcases ht with ht | ht <;> cases ht
    rw [eval, eval_binary_eq hc hl hr, map_error_iff] at h
    cases hop : op.int_op with
    | some int_op =>
      rw [apply_int_binary_eq hop hl hr, map_error_iff] at h
      cases IntOp.apply_error h
    | none =>
      obtain ⟨compare, hcompare⟩ := Option.isSome_iff_exists.mp (ht.resolve_left (by simp [hop]))
      rw [apply_comparison_eq hcompare hl hr] at h
      cases h
  | @assignment this op left right to_id rhs l r hl hr =>
    obtain ⟨int_op, hop⟩ := Option.isSome_iff_exists.mp ht
    rw [eval, eval_assignment_eq hop hl hr, map_error_iff] at h
    cases IntOp.apply_error h
  | @unary this op expression value v hv =>
    rw [eval, eval_unary_eq hv, map_error_iff] at h
    exact unary_ne_error ht hv message h

-- An operation gives the exact result or its wrap-around for exactly the safe operands.
theorem eval_iff (ho : Operands store rest expr values operation) (ht : operation.Typed) :
    (∃ result, operation.eval env values store = .ok result ∧
      operation.Result rest store result.1 result.2) ↔ operation.Safe env.build := by
  cases ho with
  | @binary this op left right lhs rhs l r hl hr =>
    have hc : op ≠ .concatenate := by
      rintro rfl
      rcases ht with ht | ht <;> cases ht
    rw [eval, eval_binary_eq hc hl hr, map_ok_iff]
    cases hop : op.int_op with
    | some int_op =>
      rw [apply_int_binary_eq hop hl hr, map_ok_iff]
      simp only [Safe, hop, Option.mem_def, Option.some.injEq, forall_eq', ← IntOp.apply_spec,
        result_binary_iff hop]
    | none =>
      obtain ⟨compare, hcompare⟩ := Option.isSome_iff_exists.mp (ht.resolve_left (by simp [hop]))
      rw [apply_comparison_eq hcompare hl hr]
      refine iff_of_true ⟨_, rfl, .comparison hcompare⟩ fun int_op h => ?_
      cases hop.symm.trans h
  | @assignment this op left right to_id rhs l r hl hr =>
    obtain ⟨int_op, hop⟩ := Option.isSome_iff_exists.mp ht
    rw [eval, eval_assignment_eq hop hl hr, map_ok_iff]
    simp only [Safe, hop, Option.mem_def, Option.some.injEq, forall_eq', ← IntOp.apply_spec,
      result_assignment_iff hop hl]
  | @unary this op expression value v hv =>
    rw [eval, eval_unary_eq hv, map_ok_iff]
    exact unary_iff ht hv

end IntegerOperation

-- What a round of `Prompt::step` may make of an operation on integers: the exact result or its
-- wrap-around, or an error of the evaluated program.
def Prompt.Survives {type : IntegerType} (prompt : Prompt) (env : EvalEnv) (ctx : EvalContext) (frame : Frame)
    (frames : List Frame) (rest : List Value) (operation : IntegerOperation type) : Prop :=
  (∃ expr_values store, prompt.advance env ctx = .ok (.more ⟨{ frame with expr_values } :: frames, store⟩) ∧
    operation.Result rest prompt.store expr_values store) ∨
  ∃ message, prompt.advance env ctx = .error (.fault (.evalError message))

-- A round that evaluates an operator on integers survives exactly where the operation is safe.
theorem arithmetic_survives_iff (env : EvalEnv) (ctx : EvalContext) (frame : Frame)
    (frames : List Frame) (store : Store) (position : StatementId) (expr : Expression)
    (expr_stack : List ExprInstruction) (rest : List Value) (type : IntegerType)
    (operation : IntegerOperation type) (hp : frame.position = some position)
    (hs : frame.expr_stack = .evalExpr expr :: expr_stack)
    (ho : operation.Operands store rest expr frame.expr_values) (ht : operation.Typed) :
    Prompt.Survives ⟨frame :: frames, store⟩ env ctx { frame with expr_stack } frames rest operation ↔
      operation.Safe env.build := by
  have hadvance : Prompt.advance env ctx ⟨frame :: frames, store⟩ =
      finish_expr { frame with expr_stack } frames (operation.eval env frame.expr_values store) := by
    obtain ⟨_, _, _, _, values, _⟩ := frame
    cases hp
    cases hs
    exact IntegerOperation.eval_expr_eq ho
  rw [← IntegerOperation.eval_iff ho ht, Prompt.Survives, hadvance]
  cases heval : operation.eval env frame.expr_values store with
  | error fault =>
    refine iff_of_false (fun h => ?_) nofun
    rcases h with ⟨_, _, h, _⟩ | ⟨message, h⟩
    · cases h
    · cases h
      exact IntegerOperation.eval_ne_error ho ht message heval
  | ok result =>
    constructor
    case mp =>
      intro h
      rcases h with ⟨_, _, h, hr⟩ | ⟨_, h⟩
      · cases h
        exact ⟨result, rfl, hr⟩
      · cases h
    case mpr =>
      rintro ⟨_, h, hr⟩
      cases h
      exact .inl ⟨_, _, rfl, hr⟩

-- `func s32 divide() { return dividend / divisor; }`.
def Expression.divides (dividend divisor : BitVec 64) : Expression :=
  .binary 0 .divide (.literal 1 (.integer dividend) []) (.literal 2 (.integer divisor) [])

def Definition.divides (dividend divisor : BitVec 64) : Definition where
  this       := 0
  kind       := .function
  parameters := []
  body       := ⟨0, [.return 1 (.divides dividend divisor)], 2⟩

def EvalEnv.divides (dividend divisor : BitVec 64) : EvalEnv where
  build           := ⟨false, 0⟩
  definitions _   := some (.divides dividend divisor)
  arena           := BlockOf.nodes (Definition.divides dividend divisor).body
  heap            := (visit_module ⟨fun _ => .function 0, fun _ _ => false⟩
    [.divides dividend divisor] (.parsed (.parsed []))).toOption.getD (.parsed (.parsed []))
  expr_data _ _ _ := some ⟨[.integer ⟨true, .w32⟩], 0⟩

-- The frame at the division, with the divisor and the dividend as its values.
def Frame.divides (dividend divisor : BitVec 64) : Frame :=
  { Frame.new (EvalEnv.divides dividend divisor).heap (.divides dividend divisor) 0 with
    position    := some 1
    expr_stack  := [.evalExpr (.divides dividend divisor)]
    expr_values := [.integer ⟨true, .w32⟩ (divisor.setWidth 32),
      .integer ⟨true, .w32⟩ (dividend.setWidth 32)] }

theorem arithmetic_survives_seven_halves :
    Prompt.Survives ⟨[.divides 7 2], .new⟩ (.divides 7 2) .none
      { Frame.divides 7 2 with expr_stack := [] } [] []
      (.binary .divide 7 2 : IntegerOperation ⟨true, .w32⟩) := by
  have hoperands : IntegerOperation.Operands .new [] (.divides 7 2) (Frame.divides 7 2).expr_values
      (.binary .divide 7 2 : IntegerOperation ⟨true, .w32⟩) :=
    .binary rfl rfl
  refine (arithmetic_survives_iff _ _ _ _ _ 1 _ _ _ _ _ rfl rfl hoperands (Or.inl rfl)).mpr ?_
  intro int_op h
  cases h
  exact ⟨by decide, by decide⟩

-- The evaluation of `1 / 0` takes the component down.
theorem division_by_zero_panics :
    ∃ start block, Prompt.new (EvalEnv.divides 1 0).heap (.divides 1 0) 0 ⟨[], []⟩ = .ok start ∧
      start.step (.divides 1 0) .none 1 = .ok (.stepping, block) ∧
      block.step (.divides 1 0) .none 3 = .error (.fault .arithmetic) :=
  ⟨_, _, rfl, rfl, rfl⟩

end Reowolf
