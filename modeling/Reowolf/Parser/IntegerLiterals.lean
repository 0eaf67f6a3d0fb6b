import Mathlib.Data.List.Induction
import Mathlib.Data.Nat.Digits.Defs
import Reowolf.Parser.Expressions
import Reowolf.Parser.LexemeSpec

namespace Reowolf.Parser

variable {text buffer : List Char} {radix number m n : Nat} {digits : List Nat}

-- A digit of a radix.
def HasDigit (radix : Nat) (c : Char) (d : Nat) : Prop :=
  from_str_radix.to_digit c = some d ∧ d < radix

-- The number that the text of an integer literal stands for: behind the prefix there are digits of its
-- radix, with separators that do not matter.
def Denotes (text : List Char) (number : Nat) : Prop :=
  ∃ digits, digits ≠ [] ∧ number = Nat.ofDigits (integer_radix text).1 digits.reverse ∧
    List.Forall₂ (HasDigit (integer_radix text).1)
      ((text.drop (integer_radix text).2.1).filter (· ≠ '_')) digits

theorem digits_unique {digits' : List Nat} (h : List.Forall₂ (HasDigit radix) buffer digits)
    (h' : List.Forall₂ (HasDigit radix) buffer digits') : digits = digits' := by
  induction h generalizing digits' with
  | nil =>
    cases h'
    rfl
  | cons hd _ ih =>
    cases h' with
    | cons hd' h' =>
      cases hd.1.symm.trans hd'.1
      rw [ih h']

theorem Denotes.unique (h : Denotes text m) (h' : Denotes text n) : m = n := by
  obtain ⟨_, _, hm, hd⟩ := h
  obtain ⟨_, _, hn, hd'⟩ := h'
  rw [hm, hn, digits_unique hd hd']

theorem ofDigits_reverse (radix : Nat) (digits : List Nat) :
    Nat.ofDigits radix digits.reverse = digits.foldl (fun number digit => number * radix + digit) 0 := by
  induction digits using List.reverseRecOn with
  | nil => rfl
  | append_singleton digits digit ih =>
    rw [List.reverse_concat, Nat.ofDigits_cons, ih, List.foldl_append, List.foldl_cons, List.foldl_nil,
      Nat.add_comm, Nat.mul_comm]

theorem foldlM_eq_some {start : Nat} :
    buffer.foldlM (fun number char => do
        let digit ← from_str_radix.to_digit char
        if digit < radix then some (number * radix + digit) else none) start = some m ↔
      ∃ digits, List.Forall₂ (HasDigit radix) buffer digits ∧
        m = digits.foldl (fun number digit => number * radix + digit) start := by
  induction buffer generalizing start with
  | nil =>
    constructor
    case mp =>
      intro h
      cases h
      exact ⟨[], .nil, rfl⟩
    case mpr =>
      rintro ⟨digits, hd, hm⟩
      cases hd
      exact hm ▸ rfl
  | cons c buffer ih =>
    rw [List.foldlM_cons]
    constructor
    case mp =>
      intro h
      obtain ⟨next, hnext, h⟩ := Option.bind_eq_some_iff.mp h
      obtain ⟨digit, hdigit, hnext⟩ := Option.bind_eq_some_iff.mp hnext
      split at hnext
      case isTrue hlt =>
        cases hnext
        obtain ⟨digits, hd, hm⟩ := ih.mp h
        exact ⟨digit :: digits, .cons ⟨hdigit, hlt⟩ hd, hm⟩
      case isFalse => cases hnext
    case mpr =>
      rintro ⟨digits, hd, hm⟩
      cases hd with
      | cons hdigit hd =>
        have hrest := ih.mpr ⟨_, hd, hm⟩
        simp only [hdigit.1, Option.bind_eq_bind, Option.bind_some, hdigit.2, if_true]
        exact hrest

-- What the lexer takes for an integer literal.
def IntegerText (text : List Char) : Prop :=
  ∃ c cs, text = c :: cs ∧ is_integer_literal_start c = true ∧ ∀ d ∈ cs, maybe_number_remaining d = true

theorem IntegerText.no_sign (h : IntegerText text) : '+' ∉ text := by
  intro hm
  obtain ⟨c, cs, he, hc, hcs⟩ := h
  subst he
  cases List.mem_cons.mp hm with
  | inl he => exact absurd (he ▸ hc) (by decide)
  | inr hm => exact absurd (hcs _ hm) (by decide)

theorem from_str_radix_eq_some {value : BitVec 64} (hp : '+' ∉ buffer) :
    from_str_radix radix buffer = some value ↔
      ∃ digits, digits ≠ [] ∧ value.toNat = Nat.ofDigits radix digits.reverse ∧
        List.Forall₂ (HasDigit radix) buffer digits := by
  have hhead : buffer.head? ≠ some '+' := fun h => hp (List.mem_of_head? h)
  simp only [from_str_radix, hhead, if_false]
  cases buffer with
  | nil =>
    refine iff_of_false (by simp) ?_
    rintro ⟨digits, hne, _, hd⟩
    cases hd
    exact hne rfl
  | cons c buffer =>
    simp only [List.isEmpty_cons, Bool.false_eq_true, if_false]
    constructor
    case mp =>
      intro h
      obtain ⟨number, hfold, h⟩ := Option.bind_eq_some_iff.mp h
      obtain ⟨digits, hd, hm⟩ := foldlM_eq_some.mp hfold
      split at h
      case isTrue hlt =>
        cases h
        refine ⟨digits, ?_, ?_, hd⟩
        · rintro rfl
          cases hd
        · rw [BitVec.toNat_ofNat, Nat.mod_eq_of_lt hlt, hm, ofDigits_reverse]
      case isFalse => cases h
    case mpr =>
      rintro ⟨digits, _, hm, hd⟩
      rw [ofDigits_reverse] at hm
      have hfold := foldlM_eq_some.mpr ⟨digits, hd, hm⟩
      refine Option.bind_eq_some_iff.mpr ⟨_, hfold, ?_⟩
      rw [if_pos value.isLt, BitVec.ofNat_toNat, BitVec.setWidth_eq]

-- The parser takes the literals that stand for a number below 2^64, and finds that number.
theorem consume_integer_literal_iff {text gap : String} {rest iter : TokenIter} {number : BitVec 64}
    (ht : IntegerText text.toList) :
    consume_integer_literal (⟨.integer, text, gap⟩ :: rest) = .ok (number, iter) ↔
      Denotes text.toList number.toNat ∧ iter = rest := by
  have hp : '+' ∉ (text.toList.drop (integer_radix text.toList).2.1).filter (· ≠ '_') :=
    fun hm => ht.no_sign (List.mem_of_mem_drop (List.mem_filter.mp hm).1)
  have hdenotes : from_str_radix (integer_radix text.toList).1
      ((text.toList.drop (integer_radix text.toList).2.1).filter (· ≠ '_')) = some number ↔
      Denotes text.toList number.toNat :=
    from_str_radix_eq_some hp
  rw [← hdenotes]
  simp only [consume_integer_literal, if_true]
  split
  case h_1 value h =>
    rw [h]
    constructor
    case mp =>
      intro he
      cases he
      exact ⟨rfl, rfl⟩
    case mpr =>
      rintro ⟨hv, hi⟩
      cases hv
      exact hi ▸ rfl
  case h_2 h =>
    rw [h]
    exact iff_of_false nofun fun hv => by cases hv.1

end Reowolf.Parser
