import Reowolf.Protocol.IntegerRanges

namespace Reowolf

namespace IntegerType

variable {type to_type : IntegerType} {v : Integer type}

theorem fits_unsigned_iff (h : type.signed = false) :
    fits_unsigned v to_type ↔ to_type.Contains (toInt v) := by
  have hlt := v.isLt
  obtain ⟨signed, width⟩ := type
  obtain ⟨to_signed, to_width⟩ := to_type
  cases h
  cases width <;> cases to_signed <;> cases to_width <;>
    simp [fits_unsigned, Contains, min, max, toInt, max_as, bits, Width.bits] at * <;> omega

theorem fits_signed_iff (h : type.signed = true) :
    fits_signed v to_type ↔ to_type.Contains (toInt v) := by
  have hle := BitVec.le_two_mul_toInt (x := v)
  have hlt := BitVec.two_mul_toInt_lt (x := v)
  obtain ⟨signed, width⟩ := type
  obtain ⟨to_signed, to_width⟩ := to_type
  cases h
  cases width <;> cases to_signed <;> cases to_width <;>
    simp [fits_signed, Contains, min, max, toInt, max_as, min_as, bits, Width.bits] at * <;> omega

theorem cast_contains (h : to_type.Contains (toInt v)) : toInt (cast to_type v) = toInt v := by
  rw [cast_eq, toInt_ofInt h]

end IntegerType

-- The number of a bool, a character or an integer.
def Value.number : Value → Option Int
  | .bool b      => some b.toNat
  | .char c      => some c.toNat
  | .integer _ v => some (IntegerType.toInt v)
  | _            => none

namespace ConcreteTypePart

-- The values of one of the simple types.
def Has : ConcreteTypePart → Value → Prop
  | bool, .bool _                   => True
  | character, .char _              => True
  | integer type, .integer type' _  => type' = type
  | _, _                            => False

-- The value of a simple type that stands for a number. Every number but zero is true.
def Denotes (part : ConcreteTypePart) (n : Int) (w : Value) : Prop :=
  if part = bool then w = .bool (n ≠ 0) else part.Has w ∧ w.number = some n

def Represents (part : ConcreteTypePart) (n : Int) : Prop :=
  ∃ w, part.Denotes n w

theorem represents_bool (n : Int) : bool.Represents n :=
  ⟨.bool (n ≠ 0), by simp [Denotes]⟩

theorem represents_character {n : Int} : character.Represents n ↔ ∃ c : Char, (c.toNat : Int) = n := by
  constructor
  case mp =>
    rintro ⟨w, hw⟩
    simp only [Denotes, reduceCtorEq, if_false] at hw
    cases w with
    | char c => exact ⟨c, Option.some.inj hw.right⟩
    | _      => cases hw.left
  case mpr =>
    rintro ⟨c, hc⟩
    exact ⟨.char c, by simp [Denotes, Has, Value.number, hc]⟩

theorem represents_integer {type : IntegerType} {n : Int} :
    (integer type).Represents n ↔ type.Contains n := by
  constructor
  case mp =>
    rintro ⟨w, hw⟩
    simp only [Denotes, reduceCtorEq, if_false] at hw
    cases w with
    | integer type' v =>
      obtain ⟨ht, hv⟩ := hw
      cases ht
      exact Option.some.inj hv ▸ IntegerType.contains_toInt v
    | _ => cases hw.left
  case mpr =>
    intro h
    refine ⟨.integer type (BitVec.ofInt type.bits n), ?_⟩
    simp [Denotes, Has, Value.number, IntegerType.toInt_ofInt h]

end ConcreteTypePart

open ConcreteTypePart

-- What a cast is to take. An integer is to become a character only if it fits in a byte.
def ConcreteTypePart.Takes (part : ConcreteTypePart) : Value → Prop
  | .bool b         => part.Represents b.toNat
  | .char c         => part.Represents c.toNat
  | .integer _ v    => part.Represents (IntegerType.toInt v) ∧ (part = character → IntegerType.toInt v ≤ 255)
  | _               => False

-- The cast of a value with a number gives the value that denotes the number, or an error if the
-- value is not to be taken.
structure CastsExactly (build : Build) (store : Store) (subject v : Value) (part : ConcreteTypePart)
    (n : Int) : Prop where
  ok_iff  : (∃ w, apply_casting build store [part] subject = .ok (.ok w, store)) ↔ part.Takes v
  denotes : ∀ w, apply_casting build store [part] subject = .ok (.ok w, store) → part.Denotes n w
  refuses : ¬part.Takes v →
    ∃ message, apply_casting build store [part] subject = .ok (.error message, store)

-- Where a cast gives another result: a bool as a character is always the number one, a character is
-- not checked to fit in an integer type, and the limit for a signed integer as a character is the
-- address of a function.
def CastSlips (build : Build) (part : ConcreteTypePart) : Value → Prop
  | .bool b         => part = character ∧ b = false
  | .char c         => ∃ type, part = integer type ∧ ¬type.Contains c.toNat
  | .integer type v =>
    part = character ∧ type.signed = true ∧ 0 ≤ v.toInt ∧
      ¬(v.toInt ≤ (IntegerType.char_max build type).toInt ↔ v.toInt ≤ 255)
  | _ => False

section Results

variable {build : Build} {store : Store} {subject v w : Value} {part : ConcreteTypePart} {n : Int}

theorem castsExactly_of_ok (h : apply_casting build store [part] subject = .ok (.ok w, store)) :
    CastsExactly build store subject v part n ↔ part.Takes v ∧ part.Denotes n w := by
  constructor
  case mp => exact fun hc => ⟨hc.ok_iff.mp ⟨w, h⟩, hc.denotes w h⟩
  case mpr =>
    rintro ⟨ht, hw⟩
    refine ⟨⟨fun _ => ht, fun _ => ⟨w, h⟩⟩, fun w' h' => ?_, fun hn => absurd ht hn⟩
    cases h.symm.trans h'
    exact hw

theorem castsExactly_of_error {message : String}
    (h : apply_casting build store [part] subject = .ok (.error message, store)) :
    CastsExactly build store subject v part n ↔ ¬part.Takes v := by
  constructor
  case mp =>
    intro hc hr
    obtain ⟨_, h'⟩ := hc.ok_iff.mpr hr
    cases h.symm.trans h'
  case mpr =>
    intro hn
    refine ⟨⟨?_, fun hr => absurd hr hn⟩, fun _ h' => ?_, fun _ => ⟨message, h⟩⟩
    · rintro ⟨_, h'⟩
      cases h.symm.trans h'
    · cases h.symm.trans h'

theorem cast_bool_exact {b : Bool} (hs : store.maybe_read_ref subject = .ok (.bool b))
    (hp : part.is_simple = true) :
    CastsExactly build store subject (.bool b) part b.toNat ↔ ¬CastSlips build part (.bool b) := by
  cases part with
  | bool =>
    have hrun : apply_casting build store [.bool] subject = .ok (.ok (.bool b), store) := by
      simp only [apply_casting, is_simple, hs]
      rfl
    rw [castsExactly_of_ok hrun]
    simp only [Takes, represents_bool, Denotes, CastSlips, reduceCtorEq, false_and, not_false_eq_true]
    cases b <;> simp
  | character =>
    have hrun : apply_casting build store [.character] subject =
        .ok (.ok (.char (Char.ofNat 1)), store) := by
      simp only [apply_casting, is_simple, hs]
      rfl
    have ht : Takes character (.bool b) :=
      represents_character.mpr ⟨Char.ofNat b.toNat, by cases b <;> rfl⟩
    rw [castsExactly_of_ok hrun]
    cases b <;> simp [ht, Denotes, Has, Value.number, CastSlips]
  | integer type =>
    have hrun : apply_casting build store [.integer type] subject =
        .ok (.ok (.integer type (BitVec.ofInt type.bits b.toNat)), store) := by
      simp only [apply_casting, is_simple, hs, BitVec.ofInt_natCast]
      rfl
    have hc : type.Contains b.toNat := by
      obtain ⟨signed, width⟩ := type
      cases signed <;> cases width <;> cases b <;> decide
    rw [castsExactly_of_ok hrun]
    simp only [Takes, represents_integer, hc, Denotes, reduceCtorEq, if_false, Has, Value.number,
      CastSlips, IntegerType.toInt_ofInt hc, false_and, not_false_eq_true, and_self]
  | _ => cases hp

theorem cast_char_exact {c : Char} (hs : store.maybe_read_ref subject = .ok (.char c))
    (hp : part.is_simple = true) :
    CastsExactly build store subject (.char c) part c.toNat ↔ ¬CastSlips build part (.char c) := by
  cases part with
  | bool =>
    have hrun : apply_casting build store [.bool] subject =
        .ok (.ok (.bool (c ≠ Char.ofNat 0)), store) := by
      simp only [apply_casting, is_simple, hs]
      rfl
    rw [castsExactly_of_ok hrun]
    simp [Takes, represents_bool, Denotes, CastSlips, ← Char.toNat_inj]
  | character =>
    have hrun : apply_casting build store [.character] subject = .ok (.ok (.char c), store) := by
      simp only [apply_casting, is_simple, hs]
      rfl
    have ht : Takes character (.char c) := represents_character.mpr ⟨c, rfl⟩
    rw [castsExactly_of_ok hrun]
    simp [ht, Denotes, Has, Value.number, CastSlips]
  | integer type =>
    have hrun : apply_casting build store [.integer type] subject =
        .ok (.ok (.integer type (BitVec.ofInt type.bits c.toNat)), store) := by
      simp only [apply_casting, is_simple, hs, BitVec.ofInt_natCast]
      rfl
    have hslips : CastSlips build (integer type) (.char c) ↔ ¬type.Contains c.toNat := by
      simp [CastSlips]
    rw [castsExactly_of_ok hrun, hslips, not_not, Takes, represents_integer]
    constructor
    case mp => exact And.left
    case mpr =>
      intro hc
      refine ⟨hc, ?_⟩
      simp only [Denotes, reduceCtorEq, if_false, Has, Value.number, IntegerType.toInt_ofInt hc,
        and_self]
  | _ => cases hp

-- The low eight bits of an integer as a character.
theorem toNat_low_byte {type : IntegerType} (v : Integer type) :
    (Char.ofNat (v.setWidth 8).toNat).toNat = v.toNat % 256 := by
  have hlt : v.toNat % 256 < 256 := Nat.mod_lt _ (by decide)
  have hvalid : (v.toNat % 256).isValidChar := .inl (Nat.lt_trans hlt (by decide))
  rw [BitVec.toNat_setWidth, Char.ofNat, dif_pos hvalid]
  rfl

-- Every byte is a character.
theorem represents_character_of_byte (h0 : 0 ≤ n) (h : n ≤ 255) : character.Represents n := by
  have hvalid : n.toNat.isValidChar := .inl (by omega)
  refine represents_character.mpr ⟨Char.ofNat n.toNat, ?_⟩
  rw [Char.ofNat, dif_pos hvalid]
  change (n.toNat : Int) = n
  omega

theorem not_represents_character (h : n < 0) : ¬character.Represents n := by
  intro hr
  obtain ⟨c, hc⟩ := represents_character.mp hr
  omega

-- The largest number that becomes a character.
def char_limit (build : Build) (type : IntegerType) : Int :=
  if type.signed then (IntegerType.char_max build type).toInt else 255

theorem char_fits_iff {type : IntegerType} (v : Integer type) :
    (if type.signed then 0 ≤ v.toInt ∧ v.toInt ≤ (IntegerType.char_max build type).toInt
      else v.toNat ≤ (IntegerType.u8.max_as type).toNat) ↔
    0 ≤ IntegerType.toInt v ∧ IntegerType.toInt v ≤ char_limit build type := by
  have hlt := v.isLt
  obtain ⟨signed, width⟩ := type
  cases signed
  case true  => rfl
  case false =>
    cases width <;>
      simp [char_limit, IntegerType.toInt, IntegerType.max_as, IntegerType.max, IntegerType.bits,
        Width.bits] at * <;> omega

theorem castSlips_character {type : IntegerType} {v : Integer type} :
    CastSlips build character (.integer type v) ↔ 0 ≤ IntegerType.toInt v ∧
      ¬(IntegerType.toInt v ≤ char_limit build type ↔ IntegerType.toInt v ≤ 255) := by
  cases hs : type.signed <;> simp [CastSlips, char_limit, IntegerType.toInt, hs]

theorem cast_integer_exact {type : IntegerType} {v : Integer type}
    (hs : store.maybe_read_ref subject = .ok (.integer type v)) (hp : part.is_simple = true) :
    CastsExactly build store subject (.integer type v) part (IntegerType.toInt v) ↔
      ¬CastSlips build part (.integer type v) := by
  have hcast {result : Except String Value} (h : cast_integer build part v = .ok result) :
      apply_casting build store [part] subject = .ok (result, store) := by
    simp only [apply_casting, hp, hs, not_true, if_false]
    change (cast_integer build part v >>= fun result => .ok (result, store)) = _
    rw [h]
    rfl
  cases part with
  | bool =>
    rw [castsExactly_of_ok (hcast rfl)]
    simp [Takes, represents_bool, Denotes, CastSlips, IntegerType.toInt_eq_zero]
  | character =>
    by_cases h : (if type.signed then 0 ≤ v.toInt ∧ v.toInt ≤ (IntegerType.char_max build type).toInt
      else v.toNat ≤ (IntegerType.u8.max_as type).toNat)
    case pos =>
      obtain ⟨hn, hle⟩ := (char_fits_iff v).mp h
      have hnat := IntegerType.toInt_of_nonneg hn
      rw [castsExactly_of_ok (hcast (if_pos h)), castSlips_character]
      simp only [Takes, Denotes, reduceCtorEq, if_false, Has, Value.number, true_and,
        Option.some.injEq, toNat_low_byte, hn, hle, true_iff, not_not]
      constructor
      case mp => exact fun ht => ht.left.right trivial
      case mpr =>
        intro hb
        exact ⟨⟨represents_character_of_byte hn hb, fun _ => hb⟩, by omega⟩
    case neg =>
      rw [castsExactly_of_error (hcast (if_neg h)), castSlips_character, Takes]
      rw [char_fits_iff] at h
      by_cases hn : IntegerType.toInt v < 0
      case pos =>
        have hr := not_represents_character hn
        simp only [hr, false_and, not_false_eq_true, not_le.mpr hn]
      case neg =>
        have hn := not_lt.mp hn
        have hle : ¬IntegerType.toInt v ≤ char_limit build type := fun hle => h ⟨hn, hle⟩
        simp only [hn, hle, true_and, false_iff, not_not]
        constructor
        case mp => exact fun ht hb => ht ⟨represents_character_of_byte hn hb, fun _ => hb⟩
        case mpr => exact fun hb ht => hb (ht.right trivial)
  | integer to_type =>
    have hfits : (if type.signed then IntegerType.fits_signed v to_type
        else IntegerType.fits_unsigned v to_type) ↔ to_type.Contains (IntegerType.toInt v) := by
      split
      case isTrue h  => exact IntegerType.fits_signed_iff h
      case isFalse h => exact IntegerType.fits_unsigned_iff (Bool.eq_false_iff.mpr h)
    by_cases h : to_type.Contains (IntegerType.toInt v)
    case pos =>
      rw [castsExactly_of_ok (hcast (if_pos (hfits.mpr h)))]
      simp only [Takes, represents_integer, h, Denotes, reduceCtorEq, if_false, Has, Value.number,
        CastSlips, IntegerType.cast_contains h, false_and, not_false_eq_true, and_self,
        false_implies]
    case neg =>
      rw [castsExactly_of_error (hcast (if_neg (mt hfits.mp h)))]
      simp only [Takes, represents_integer, CastSlips, h, reduceCtorEq, false_and, not_false_eq_true]
  | _ => cases hp

theorem castsExactly_iff (hs : store.maybe_read_ref subject = .ok v) (hn : v.number = some n)
    (hp : part.is_simple = true) :
    CastsExactly build store subject v part n ↔ ¬CastSlips build part v := by
  cases v with
  | bool b         => cases hn; exact cast_bool_exact hs hp
  | char c         => cases hn; exact cast_char_exact hs hp
  | integer type v => cases hn; exact cast_integer_exact hs hp
  | _              => cases hn

end Results

-- A cast between simple types takes the values whose number the type represents, integers becoming
-- characters as bytes, and keeps the number, wherever it does not slip.
theorem casting_exact (build : Build) (store : Store) (subject v : Value) (part : ConcreteTypePart)
    (n : Int) (hs : store.maybe_read_ref subject = .ok v) (hn : v.number = some n)
    (hp : part.is_simple = true) (hslip : ¬CastSlips build part v) :
    CastsExactly build store subject v part n :=
  (castsExactly_iff hs hn hp).mpr hslip

-- The value -1 of type `s32` is refused by `u16`.
theorem casting_exact_negative :
    let v : Value := .integer ⟨true, .w32⟩ (-1)
    let part : ConcreteTypePart := .integer ⟨false, .w16⟩
    CastsExactly ⟨true, 0⟩ ⟨[], 0, [], []⟩ v v part (-1) ∧ ¬part.Takes v := by
  refine ⟨casting_exact _ _ _ _ _ _ rfl (by decide) rfl (by simp [CastSlips]), ?_⟩
  simp only [Takes, represents_integer, reduceCtorEq, false_implies, and_true]
  decide

-- The value 256 of type `u16` is refused by `char`, although there is a character of that number.
theorem cast_refuses_character :
    let v : Value := .integer ⟨false, .w16⟩ 256
    v.number = some 256 ∧ character.Represents 256 ∧
      apply_casting ⟨true, 0⟩ ⟨[], 0, [], []⟩ [.character] v =
        .ok (.error "value is '256' which doesn't fit in a type 'char'", ⟨[], 0, [], []⟩) := by
  refine ⟨by decide, represents_character.mpr ⟨Char.ofNat 256, by decide⟩, ?_⟩
  decide +kernel

end Reowolf
