import Reowolf.Parser.ExpressionLevels

namespace Reowolf.Parser

theorem to_digit_digit {c : Char} (h : c.isDigit = true) :
    from_str_radix.to_digit c = some (c.toNat - '0'.toNat) ∧ c.toNat - '0'.toNat < 10 := by
  have hc := Char.isDigit_iff_toNat.mp h
  have h₀ : '0'.toNat = 48 := rfl
  have h₉ : '9'.toNat = 57 := rfl
  exact ⟨by simp [from_str_radix.to_digit, h], by omega⟩

-- Digits are converted to the number that they stand for.
theorem foldlM_digits {digits : List Char} (h : ∀ c ∈ digits, c.isDigit = true) (number : Nat) :
    digits.foldlM (fun number char => do
        let digit ← from_str_radix.to_digit char
        if digit < 10 then some (number * 10 + digit) else none) number =
      some (Nat.ofDigitChars 10 digits number) := by
  induction digits generalizing number
  case nil => simp
  case cons c digits ih =>
    obtain ⟨hc, h⟩ := List.forall_mem_cons.mp h
    obtain ⟨hd, hl⟩ := to_digit_digit hc
    rw [List.foldlM_cons, hd, Nat.ofDigitChars_cons, Nat.mul_comm, ← ih h]
    simp only [Option.bind_eq_bind, Option.bind_some, hl, if_true]

theorem integer_radix_digits {digits : List Char} (h : ∀ c ∈ digits, c.isDigit = true) :
    integer_radix digits = (10, 0, "decimal") := by
  unfold integer_radix
  split
  case h_7 => rfl
  all_goals simp at h

theorem consume_integer_literal_toString (number : BitVec 64) (gap : String) (rest : TokenIter) :
    consume_integer_literal (⟨.integer, toString number.toNat, gap⟩ :: rest) = .ok (number, rest) := by
  have hd : ∀ c ∈ Nat.toDigits 10 number.toNat, c.isDigit = true := fun c hc =>
    Nat.isDigit_of_mem_toDigits (by decide) (by decide) hc
  have hf : (Nat.toDigits 10 number.toNat).filter (· ≠ '_') = Nat.toDigits 10 number.toNat := by
    rw [List.filter_eq_self]
    intro c hc
    simp only [ne_eq, decide_not, Bool.not_eq_eq_eq_not, Bool.not_true, decide_eq_false_iff_not]
    rintro rfl
    exact absurd (hd _ hc) (by decide)
  have hp : (Nat.toDigits 10 number.toNat).head? ≠ some '+' := fun he =>
    absurd (hd _ (List.mem_of_head? he)) (by decide)
  have hr : from_str_radix 10 (Nat.toDigits 10 number.toNat) = some number := by
    have hne : (Nat.toDigits 10 number.toNat).isEmpty = false := by
      simp [Nat.toDigits_ne_nil]
    simp only [from_str_radix, hp, if_false, hne, foldlM_digits hd]
    simp [number.isLt]
  simp only [consume_integer_literal, if_true]
  rw [show (toString number.toNat).toList = Nat.toDigits 10 number.toNat from Nat.toList_repr,
    integer_radix_digits hd]
  simp only [List.drop_zero, hf, hr]

theorem escape_ascii (quote : Char) {text : List Char} (h : is_ascii text = true) :
    is_ascii (escape quote text) = true := by
  induction text
  case nil => rfl
  case cons c text ih =>
    simp only [is_ascii, List.all_cons, Bool.and_eq_true, decide_eq_true_eq] at h ih ⊢
    simp only [escape]
    split
    · simp [h.1, ih h.2]
    · simp [h.1, ih h.2]

-- Of an escaped string the parser pushes the backslashes as well.
theorem push_characters_escape {text : List Char} :
    push_characters false (escape '"' text) = .ok (escape '"' text) := by
  induction text
  case nil => rfl
  case cons c text ih =>
    simp only [escape]
    split
    case isTrue h =>
      obtain rfl | rfl := h <;>
        simp [push_characters, parse_escaped_character, bind, Except.bind, ih]
    case isFalse h =>
      have hc : c ≠ '\\' := fun hc => h (.inr hc)
      simp [push_characters, bind, Except.bind, ih, hc]

theorem toList_quoted (quote : Char) (text : List Char) :
    (quoted quote text).toList = quote :: escape quote text ++ [quote] :=
  String.toList_ofList

theorem quoted_ascii {quote : Char} (hq : quote.toNat < 128) {text : List Char}
    (h : is_ascii text = true) : is_ascii (quote :: escape quote text ++ [quote]) = true := by
  have := escape_ascii quote h
  simp only [is_ascii, List.cons_append, List.all_cons, List.all_append, Bool.and_eq_true,
    decide_eq_true_eq] at this ⊢
  simp [hq, this]

theorem consume_string_literal_quoted {value : String} (h : is_ascii value.toList = true)
    (gap : String) (rest : TokenIter) :
    consume_string_literal (⟨.string, quoted '"' value.toList, gap⟩ :: rest) =
      .ok (String.ofList (escape '"' value.toList), rest) := by
  have hq : is_ascii ('"' :: escape '"' value.toList ++ ['"']) = true := quoted_ascii (by decide) h
  simp only [consume_string_literal, if_true, toList_quoted, hq]
  rw [List.cons_append, List.tail_cons, List.dropLast_concat, push_characters_escape]
  rfl

-- The quotation marks count as characters of a character literal.
theorem consume_character_literal_quoted {value : Char} (h : value.toNat < 128) (gap : String)
    (rest : TokenIter) :
    consume_character_literal (⟨.character, quoted '\'' [value], gap⟩ :: rest) =
      .error (.parseError "too many characters in character literal") := by
  have hq : is_ascii ('\'' :: escape '\'' [value] ++ ['\'']) = true :=
    quoted_ascii (by decide) (by simp [is_ascii, h])
  simp only [consume_character_literal, if_true, toList_quoted, hq]
  by_cases he : value = '\'' ∨ value = '\\'
  · simp [escape, he]
  · simp [escape, he]

theorem le_length_escape (quote : Char) (text : List Char) :
    text.length ≤ (escape quote text).length := by
  induction text
  case nil => simp
  case cons c text ih =>
    simp only [escape]
    split <;> simp <;> omega

-- A backslash is put in front of nothing exactly if there is nothing that has to be escaped.
theorem escape_eq_self {quote : Char} {text : List Char} :
    escape quote text = text ↔ quote ∉ text ∧ '\\' ∉ text := by
  induction text
  case nil => simp [escape]
  case cons c text ih =>
    simp only [escape]
    split
    case isTrue h =>
      refine ⟨fun he => ?_, fun hn => absurd h ?_⟩
      · have hl := congrArg List.length he
        have := le_length_escape quote text
        simp only [List.length_cons] at hl
        omega
      · simp only [List.mem_cons, not_or] at hn
        exact fun h => h.elim (fun h => hn.1.1 h.symm) (fun h => hn.2.1 h.symm)
    case isFalse h =>
      simp only [not_or] at h
      simp only [List.cons.injEq, true_and, ih, List.mem_cons, not_or]
      exact ⟨fun hb => ⟨⟨Ne.symm h.1, hb.1⟩, Ne.symm h.2, hb.2⟩, fun hb => ⟨hb.1.2, hb.2.2⟩⟩

end Reowolf.Parser
