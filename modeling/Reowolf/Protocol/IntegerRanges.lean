import Reowolf.Protocol.Operators

namespace Reowolf

namespace IntegerType

variable {type to_type : IntegerType} {v : Integer type} {n : Int}

-- The numbers of a type.
def Contains (type : IntegerType) (n : Int) : Prop :=
  type.min ≤ n ∧ n ≤ type.max

instance (type : IntegerType) (n : Int) : Decidable (type.Contains n) :=
  inferInstanceAs (Decidable (_ ∧ _))

theorem contains_toInt (v : Integer type) : type.Contains (toInt v) := by
  have hlt := v.isLt
  have hle := BitVec.le_two_mul_toInt (x := v)
  have hgt := BitVec.two_mul_toInt_lt (x := v)
  obtain ⟨signed, width⟩ := type
  cases signed <;> cases width <;>
    simp only [Contains, min, max, toInt, bits, Width.bits, if_true, if_false, Bool.false_eq_true] at * <;>
    constructor <;> omega

theorem toInt_ofInt (h : type.Contains n) : toInt (BitVec.ofInt type.bits n : Integer type) = n := by
  obtain ⟨signed, width⟩ := type
  cases signed
  case false =>
    simp only [toInt, Bool.false_eq_true, if_false, BitVec.toNat_ofInt]
    cases width <;>
      simp only [Contains, min, max, bits, Width.bits, if_false, Bool.false_eq_true] at * <;> omega
  case true =>
    simp only [toInt, if_true, BitVec.toInt_ofInt]
    cases width <;>
      simp only [Contains, min, max, bits, Width.bits, if_true] at * <;>
      exact Int.bmod_eq_of_le_mul_two (by omega) (by omega)

theorem ofInt_inj {n m : Int} (hn : type.Contains n) (hm : type.Contains m) :
    BitVec.ofInt type.bits n = BitVec.ofInt type.bits m ↔ n = m := by
  constructor
  case mp =>
    intro h
    rw [← toInt_ofInt hn, h, toInt_ofInt hm]
  case mpr => exact congrArg _

theorem contains_zero (type : IntegerType) : type.Contains 0 := by
  obtain ⟨signed, width⟩ := type
  cases signed <;> cases width <;> decide

-- A number between two numbers of a type.
theorem Contains.between {m k : Int} (hm : type.Contains m) (hk : type.Contains k) (hmn : m ≤ n)
    (hnk : n ≤ k) : type.Contains n :=
  ⟨Int.le_trans hm.left hmn, Int.le_trans hnk hk.right⟩

theorem cast_eq (to_type : IntegerType) (v : Integer type) :
    cast to_type v = BitVec.ofInt to_type.bits (toInt v) := by
  rw [cast, toInt]
  split
  · rfl
  · apply BitVec.eq_of_toNat_eq
    simp

theorem toInt_eq_zero : toInt v = 0 ↔ v = 0 := by
  rw [toInt]
  split
  · rw [← BitVec.toInt_inj, BitVec.toInt_ofNat]
    simp
  · rw [← BitVec.toNat_inj]
    simp

theorem toInt_of_nonneg (h : 0 ≤ toInt v) : toInt v = v.toNat := by
  rw [toInt] at h ⊢
  split at h
  case isTrue hs =>
    have hlt := v.isLt
    rw [if_pos hs]
    rw [BitVec.toInt_eq_toNat_cond] at h ⊢
    split at h <;> omega
  case isFalse hs => rw [if_neg hs]

end IntegerType

end Reowolf
