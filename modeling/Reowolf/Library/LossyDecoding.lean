import Mathlib.Algebra.GroupWithZero.Nat
import Mathlib.Data.List.Basic

-- The decoding of a text in which not everything has to be well formed: a part that is not is
-- replaced by one character. A byte is the character with its number.
namespace LossyDecoding

-- A character of the decoded text, with the number of bytes it was read from.
structure Glyph where
  char : Char
  size : Nat
deriving DecidableEq

def replacement : Char := Char.ofNat 0xFFFD

def is_continuation (b : Char) : Bool := 0x80 ≤ b.toNat && b.toNat ≤ 0xBF

-- The number of bytes that have to follow a first byte.
def tail_length (lead : Char) : Option Nat :=
  if lead.toNat < 0x80 then some 0
  else if 0xC2 ≤ lead.toNat ∧ lead.toNat ≤ 0xDF then some 1
  else if 0xE0 ≤ lead.toNat ∧ lead.toNat ≤ 0xEF then some 2
  else if 0xF0 ≤ lead.toNat ∧ lead.toNat ≤ 0xF4 then some 3
  else none

-- The second byte is restricted where the number of the character could have been written with fewer
-- bytes, would be that of a surrogate or would be too large.
def may_follow (lead second : Char) : Bool :=
  is_continuation second &&
    if lead.toNat = 0xE0 then 0xA0 ≤ second.toNat
    else if lead.toNat = 0xED then second.toNat ≤ 0x9F
    else if lead.toNat = 0xF0 then 0x90 ≤ second.toNat
    else if lead.toNat = 0xF4 then second.toNat ≤ 0x8F
    else true

-- The bytes of a number that are read behind the first one.
def tail_bytes (lead : Char) (n : Nat) : List Char → List Char
  | []             => []
  | second :: rest =>
    if n = 0 then []
    else if may_follow lead second then second :: (rest.takeWhile is_continuation).take (n - 1)
    else []

-- The number of a character, of which the first byte has its highest bits behind a marker.
def code (lead : Char) (tail : List Char) : Nat :=
  let marker := match tail.length with
    | 0 => 0
    | 1 => 0xC0
    | 2 => 0xE0
    | _ => 0xF0
  tail.foldl (fun code b => code * 64 + (b.toNat - 0x80)) (lead.toNat - marker)

def first_glyph (lead : Char) (rest : List Char) : Glyph :=
  match tail_length lead with
  | none => ⟨replacement, 1⟩
  | some n =>
    let tail := tail_bytes lead n rest
    if tail.length = n then ⟨Char.ofNat (code lead tail), tail.length + 1⟩
    else ⟨replacement, tail.length + 1⟩

-- The characters of a text, where a number of bytes has been read already.
def glyphs_from : Nat → List Char → List Glyph
  | _, []               => []
  | read + 1, _ :: rest => glyphs_from read rest
  | 0, lead :: rest     =>
    let glyph := first_glyph lead rest
    glyph :: glyphs_from (glyph.size - 1) rest

def glyphs (bytes : List Char) : List Glyph := glyphs_from 0 bytes

def from_utf8_lossy (bytes : List Char) : List Char := (glyphs bytes).map Glyph.char

-- The number of bytes of a text.
def byte_length (text : List Char) : Nat := (text.map Char.utf8Size).sum

variable {lead c : Char} {n : Nat} {rest xs ys : List Char}

theorem continuation_of_follow (h : may_follow lead c = true) : is_continuation c = true :=
  (Bool.and_eq_true_iff.mp h).1

theorem continuation_bounds (h : is_continuation c = true) : 0x80 ≤ c.toNat ∧ c.toNat ≤ 0xBF := by
  simpa [is_continuation] using h

theorem tail_bytes_suffix (lead : Char) (n : Nat) (rest : List Char) :
    tail_bytes lead n rest <+: rest := by
  cases rest with
  | nil => exact List.nil_prefix
  | cons second rest =>
    rw [tail_bytes]
    split
    case isTrue => exact List.nil_prefix
    case isFalse =>
      split
      case isTrue  => exact List.cons_prefix_cons.mpr ⟨rfl, (List.take_prefix _ _).trans (List.takeWhile_prefix _)⟩
      case isFalse => exact List.nil_prefix

theorem tail_bytes_length_le (lead : Char) (n : Nat) (rest : List Char) :
    (tail_bytes lead n rest).length ≤ n := by
  cases rest with
  | nil => exact Nat.zero_le _
  | cons second rest =>
    rw [tail_bytes]
    split
    case isTrue => exact Nat.zero_le _
    case isFalse hn =>
      split
      case isTrue =>
        have hle := List.length_take_le (n - 1) (rest.takeWhile is_continuation)
        rw [List.length_cons]
        omega
      case isFalse => exact Nat.zero_le _

theorem mem_tail_bytes (h : c ∈ tail_bytes lead n rest) : is_continuation c = true := by
  cases rest with
  | nil => cases h
  | cons second rest =>
    rw [tail_bytes] at h
    split at h
    case isTrue => cases h
    case isFalse =>
      split at h
      case isTrue hf =>
        cases List.mem_cons.mp h with
        | inl he => exact he ▸ continuation_of_follow hf
        | inr hm => exact List.all_eq_true.mp List.all_takeWhile _ ((List.take_sublist _ _).subset hm)
      case isFalse => cases h

theorem takeWhile_append_cons {p : Char → Bool} (hc : p c = false) (xs ys : List Char) :
    (xs ++ c :: ys).takeWhile p = xs.takeWhile p := by
  induction xs with
  | nil => rw [List.nil_append, List.takeWhile_cons, hc]; rfl
  | cons x xs ih => rw [List.cons_append, List.takeWhile_cons, List.takeWhile_cons, ih]

-- What comes behind a byte that does not continue a character makes no difference.
theorem tail_bytes_append (hc : is_continuation c = false) (lead : Char) (n : Nat) (xs ys : List Char) :
    tail_bytes lead n (xs ++ c :: ys) = tail_bytes lead n xs := by
  cases xs with
  | nil =>
    have hf : may_follow lead c ≠ true := fun hf => by
      rw [continuation_of_follow hf] at hc
      cases hc
    rw [List.nil_append, tail_bytes, tail_bytes, if_neg hf, ite_self]
  | cons x xs => rw [List.cons_append, tail_bytes, tail_bytes, takeWhile_append_cons hc]

theorem first_glyph_append (hc : is_continuation c = false) (lead : Char) (xs ys : List Char) :
    first_glyph lead (xs ++ c :: ys) = first_glyph lead xs := by
  rw [first_glyph, first_glyph]
  cases tail_length lead with
  | none   => rfl
  | some n => simp only [tail_bytes_append hc]

theorem first_glyph_ascii (h : lead.toNat < 0x80) (rest : List Char) :
    first_glyph lead rest = ⟨lead, 1⟩ := by
  have htail : tail_bytes lead 0 rest = [] :=
    List.length_eq_zero_iff.mp (Nat.le_zero.mp (tail_bytes_length_le lead 0 rest))
  have hn : tail_length lead = some 0 := if_pos h
  rw [first_glyph, hn]
  simp [htail, code]

theorem first_glyph_size (lead : Char) (rest : List Char) :
    1 ≤ (first_glyph lead rest).size ∧ (first_glyph lead rest).size ≤ rest.length + 1 := by
  rw [first_glyph]
  cases tail_length lead with
  | none => exact ⟨Nat.le_refl 1, Nat.le_add_left 1 _⟩
  | some n =>
    have hle := (tail_bytes_suffix lead n rest).length_le
    dsimp only
    split
    · exact ⟨Nat.le_add_left 1 _, Nat.succ_le_succ hle⟩
    · exact ⟨Nat.le_add_left 1 _, Nat.succ_le_succ hle⟩

theorem toNat_ofNat {n : Nat} (h : n < 0xD800 ∨ 0xDFFF < n ∧ n < 0x110000) :
    (Char.ofNat n).toNat = n := by
  have hv : n.isValidChar := h
  rw [Char.ofNat, dif_pos hv]
  rfl

theorem utf8Size_eq (c : Char) :
    c.utf8Size = if c.toNat ≤ 0x7F then 1 else if c.toNat ≤ 0x7FF then 2 else if c.toNat ≤ 0xFFFF then 3 else 4 :=
  rfl

theorem follow_bounds (h : may_follow lead c = true) : 0x80 ≤ c.toNat ∧ c.toNat ≤ 0xBF ∧
    (lead.toNat = 0xE0 → 0xA0 ≤ c.toNat) ∧ (lead.toNat = 0xED → c.toNat ≤ 0x9F) ∧
    (lead.toNat = 0xF0 → 0x90 ≤ c.toNat) ∧ (lead.toNat = 0xF4 → c.toNat ≤ 0x8F) := by
  obtain ⟨hc, hr⟩ := Bool.and_eq_true_iff.mp h
  obtain ⟨hlo, hhi⟩ := continuation_bounds hc
  refine ⟨hlo, hhi, ?_, ?_, ?_, ?_⟩
  all_goals
    intro he
    simpa [he] using hr

theorem tail_length_cases (hn : tail_length lead = some n) (h : 0x80 ≤ lead.toNat) :
    n = 1 ∧ 0xC2 ≤ lead.toNat ∧ lead.toNat ≤ 0xDF ∨ n = 2 ∧ 0xE0 ≤ lead.toNat ∧ lead.toNat ≤ 0xEF ∨
    n = 3 ∧ 0xF0 ≤ lead.toNat ∧ lead.toNat ≤ 0xF4 := by
  rw [tail_length, if_neg (Nat.not_lt.mpr h)] at hn
  split at hn
  case isTrue hb => exact .inl ⟨(Option.some.inj hn).symm, hb⟩
  case isFalse =>
    split at hn
    case isTrue hb => exact .inr (.inl ⟨(Option.some.inj hn).symm, hb⟩)
    case isFalse =>
      split at hn
      case isTrue hb => exact .inr (.inr ⟨(Option.some.inj hn).symm, hb⟩)
      case isFalse   => cases hn

theorem follow_of_tail {tail : List Char} (h : tail_bytes lead n rest = c :: tail) :
    may_follow lead c = true := by
  cases rest with
  | nil => cases h
  | cons second rest =>
    rw [tail_bytes] at h
    split at h
    case isTrue => cases h
    case isFalse =>
      split at h
      case isTrue hf => exact (List.cons.inj h).1 ▸ hf
      case isFalse   => cases h

-- The number of a character that takes several bytes is large enough for that.
theorem code_bounds {tail : List Char} (h : 0x80 ≤ lead.toNat) (hn : tail_length lead = some n)
    (ht : tail_bytes lead n rest = tail) (hl : tail.length = n) :
    (code lead tail < 0xD800 ∨ 0xDFFF < code lead tail ∧ code lead tail < 0x110000) ∧
    0x80 ≤ code lead tail ∧ (2 ≤ n → 0x800 ≤ code lead tail) ∧ (3 ≤ n → 0x10000 ≤ code lead tail) := by
  have hmem (b : Char) (hb : b ∈ tail) := continuation_bounds (mem_tail_bytes (ht ▸ hb))
  rcases tail_length_cases hn h with ⟨rfl, hlo, hhi⟩ | ⟨rfl, hlo, hhi⟩ | ⟨rfl, hlo, hhi⟩
  · obtain ⟨b₁, rfl⟩ := List.length_eq_one_iff.mp hl
    obtain ⟨h₁, h₁', _⟩ := follow_bounds (follow_of_tail ht)
    simp only [code, List.length_cons, List.length_nil, List.foldl_cons, List.foldl_nil]
    omega
  · obtain ⟨b₁, b₂, rfl⟩ := List.length_eq_two.mp hl
    obtain ⟨h₁, h₁', he, hd, _⟩ := follow_bounds (follow_of_tail ht)
    obtain ⟨h₂, h₂'⟩ := hmem b₂ (by simp)
    simp only [code, List.length_cons, List.length_nil, List.foldl_cons, List.foldl_nil]
    omega
  · obtain ⟨b₁, b₂, b₃, rfl⟩ := List.length_eq_three.mp hl
    obtain ⟨h₁, h₁', _, _, hf, hg⟩ := follow_bounds (follow_of_tail ht)
    obtain ⟨h₂, h₂'⟩ := hmem b₂ (by simp)
    obtain ⟨h₃, h₃'⟩ := hmem b₃ (by simp)
    simp only [code, List.length_cons, List.length_nil, List.foldl_cons, List.foldl_nil]
    omega

-- A character is not read from more bytes than it takes, and only an ASCII byte gives an ASCII
-- character.
theorem first_glyph_wide (h : 0x80 ≤ lead.toNat) (rest : List Char) :
    0x80 ≤ (first_glyph lead rest).char.toNat ∧
    (first_glyph lead rest).size ≤ (first_glyph lead rest).char.utf8Size := by
  have hreplacement : 0x80 ≤ replacement.toNat ∧ replacement.utf8Size = 3 := by decide
  rw [first_glyph]
  cases hn : tail_length lead with
  | none => exact ⟨hreplacement.1, hreplacement.2.symm ▸ (by decide : 1 ≤ 3)⟩
  | some n =>
    have hle : n ≤ 3 := by
      have hcases := tail_length_cases hn h
      omega
    have htail := tail_bytes_length_le lead n rest
    dsimp only
    by_cases hl : (tail_bytes lead n rest).length = n
    case pos =>
      obtain ⟨hv, h₁, h₂, h₃⟩ := code_bounds h hn rfl hl
      rw [if_pos hl]
      refine ⟨(toNat_ofNat hv).symm ▸ h₁, ?_⟩
      rw [utf8Size_eq, toNat_ofNat hv]
      show (tail_bytes lead n rest).length + 1 ≤ _
      split
      case isTrue => omega
      case isFalse =>
        split
        case isTrue => omega
        case isFalse => split <;> omega
    case neg =>
      rw [if_neg hl]
      refine ⟨hreplacement.1, ?_⟩
      rw [hreplacement.2]
      show (tail_bytes lead n rest).length + 1 ≤ 3
      omega

theorem glyphs_from_eq (read : Nat) (bytes : List Char) :
    glyphs_from read bytes = glyphs (bytes.drop read) := by
  induction bytes generalizing read with
  | nil => cases read <;> rfl
  | cons b bytes ih =>
    cases read with
    | zero      => rfl
    | succ read => exact ih read

theorem glyphs_cons (lead : Char) (rest : List Char) : glyphs (lead :: rest) =
    first_glyph lead rest :: glyphs (rest.drop ((first_glyph lead rest).size - 1)) :=
  congrArg _ (glyphs_from_eq _ rest)

theorem glyphs_ascii (h : lead.toNat < 0x80) (rest : List Char) :
    glyphs (lead :: rest) = ⟨lead, 1⟩ :: glyphs rest := by
  rw [glyphs_cons, first_glyph_ascii h]
  rfl

-- A text in its characters, one after the other.
theorem glyphs_induction {motive : List Char → Prop} (nil : motive [])
    (cons : ∀ lead rest, motive (rest.drop ((first_glyph lead rest).size - 1)) → motive (lead :: rest))
    (bytes : List Char) : motive bytes := by
  induction hl : bytes.length using Nat.strongRecOn generalizing bytes with
  | ind n ih =>
    cases bytes with
    | nil => exact nil
    | cons lead rest =>
      refine cons lead rest (ih _ ?_ _ rfl)
      rw [← hl, List.length_drop, List.length_cons]
      omega

-- A character ends in front of a byte that does not continue it.
theorem glyphs_append (hc : is_continuation c = false) (xs ys : List Char) :
    glyphs (xs ++ c :: ys) = glyphs xs ++ glyphs (c :: ys) := by
  induction xs using glyphs_induction with
  | nil => rfl
  | cons lead rest ih =>
    have hle := (first_glyph_size lead rest).2
    rw [List.cons_append, glyphs_cons, glyphs_cons, first_glyph_append hc,
      List.drop_append_of_le_length (by omega), ih]
    rfl

theorem from_utf8_lossy_append (hc : is_continuation c = false) (xs ys : List Char) :
    from_utf8_lossy (xs ++ c :: ys) = from_utf8_lossy xs ++ from_utf8_lossy (c :: ys) := by
  rw [from_utf8_lossy, glyphs_append hc, List.map_append]
  rfl

theorem from_utf8_lossy_ascii (h : c.toNat < 0x80) (xs : List Char) :
    from_utf8_lossy (c :: xs) = c :: from_utf8_lossy xs := by
  rw [from_utf8_lossy, glyphs_ascii h]
  rfl

-- The characters of a text were read from all its bytes.
theorem sum_sizes (bytes : List Char) : ((glyphs bytes).map Glyph.size).sum = bytes.length := by
  induction bytes using glyphs_induction with
  | nil => rfl
  | cons lead rest ih =>
    obtain ⟨hlo, hhi⟩ := first_glyph_size lead rest
    rw [glyphs_cons, List.map_cons, List.sum_cons, ih, List.length_drop, List.length_cons]
    omega

theorem size_pos {glyph : Glyph} (bytes : List Char) (h : glyph ∈ glyphs bytes) : 1 ≤ glyph.size := by
  induction bytes using glyphs_induction with
  | nil => cases h
  | cons lead rest ih =>
    rw [glyphs_cons] at h
    cases List.mem_cons.mp h with
    | inl he => exact he ▸ (first_glyph_size lead rest).1
    | inr hm => exact ih hm

theorem length_le_byte_length (bytes : List Char) :
    bytes.length ≤ byte_length (from_utf8_lossy bytes) := by
  induction bytes using glyphs_induction with
  | nil => exact Nat.le_refl 0
  | cons lead rest ih =>
    have hsize : (first_glyph lead rest).size ≤ (first_glyph lead rest).char.utf8Size := by
      cases Nat.lt_or_ge lead.toNat 0x80 with
      | inl h => rw [first_glyph_ascii h]; exact Char.utf8Size_pos lead
      | inr h => exact (first_glyph_wide h rest).2
    have hcons : byte_length (from_utf8_lossy (lead :: rest)) = (first_glyph lead rest).char.utf8Size +
        byte_length (from_utf8_lossy (rest.drop ((first_glyph lead rest).size - 1))) := by
      rw [from_utf8_lossy, glyphs_cons]
      rfl
    have hpos := (first_glyph_size lead rest).1
    rw [List.length_drop] at ih
    rw [List.length_cons, hcons]
    omega

-- An ASCII character stands for itself.
theorem mem_of_decoded (h : c.toNat < 0x80) {bytes : List Char} (hm : c ∈ from_utf8_lossy bytes) :
    c ∈ bytes := by
  induction bytes using glyphs_induction with
  | nil => cases hm
  | cons lead rest ih =>
    rw [from_utf8_lossy, glyphs_cons] at hm
    cases List.mem_cons.mp hm with
    | inr hm => exact List.mem_cons_of_mem _ (List.mem_of_mem_drop (ih hm))
    | inl he =>
      cases Nat.lt_or_ge lead.toNat 0x80 with
      | inl hl =>
        rw [first_glyph_ascii hl] at he
        exact he ▸ List.mem_cons_self
      | inr hl =>
        have hw := (first_glyph_wide hl rest).1
        rw [← he] at hw
        omega

theorem from_utf8_lossy_eq_nil {bytes : List Char} (h : from_utf8_lossy bytes = []) : bytes = [] := by
  cases bytes with
  | nil => rfl
  | cons lead rest =>
    rw [from_utf8_lossy, glyphs_cons] at h
    cases h

theorem byte_length_eq_zero {text : List Char} : byte_length text = 0 ↔ text = [] := by
  cases text with
  | nil => exact ⟨fun _ => rfl, fun _ => rfl⟩
  | cons c text =>
    have hpos := Char.utf8Size_pos c
    have he : byte_length (c :: text) = c.utf8Size + byte_length text := rfl
    exact ⟨fun h => by omega, fun h => by cases h⟩

theorem getLast?_of_decoded (h : c.toNat < 0x80) {bytes : List Char}
    (hl : (from_utf8_lossy bytes).getLast? = some c) : bytes.getLast? = some c := by
  induction bytes using glyphs_induction with
  | nil => cases hl
  | cons lead rest ih =>
    have hcons : from_utf8_lossy (lead :: rest) = (first_glyph lead rest).char ::
        from_utf8_lossy (rest.drop ((first_glyph lead rest).size - 1)) := by
      rw [from_utf8_lossy, glyphs_cons]
      rfl
    rw [hcons] at hl
    by_cases hd : from_utf8_lossy (rest.drop ((first_glyph lead rest).size - 1)) = []
    case neg =>
      rw [← List.singleton_append, List.getLast?_append_of_ne_nil _ hd] at hl
      have hlast := ih hl
      obtain ⟨front, he⟩ := List.getLast?_eq_some_iff.mp hlast
      refine List.getLast?_eq_some_iff.mpr ⟨lead :: rest.take ((first_glyph lead rest).size - 1) ++ front, ?_⟩
      rw [List.append_assoc, ← he, List.cons_append, List.take_append_drop]
    case pos =>
      rw [hd] at hl
      have hc : (first_glyph lead rest).char = c := Option.some.inj hl
      cases Nat.lt_or_ge lead.toNat 0x80 with
      | inl ha =>
        rw [first_glyph_ascii ha] at hc hd
        have hnil : rest = [] := from_utf8_lossy_eq_nil hd
        rw [hnil, ← hc]
        rfl
      | inr ha =>
        have hw := (first_glyph_wide ha rest).1
        rw [hc] at hw
        omega

-- The number of characters that end in the first bytes of a text, and of those that begin there.
def ended : List Glyph → Nat → Nat
  | [], _               => 0
  | glyph :: glyphs, n => if glyph.size ≤ n then ended glyphs (n - glyph.size) + 1 else 0

def begun : List Glyph → Nat → Nat
  | [], _               => 0
  | glyph :: glyphs, n => if n = 0 then 0 else begun glyphs (n - glyph.size) + 1

section Counts

variable {gs hs : List Glyph} {m n : Nat}

def byte_count (gs : List Glyph) : Nat := (gs.map Glyph.size).sum

theorem ended_le_length (gs : List Glyph) (n : Nat) : ended gs n ≤ gs.length := by
  induction gs generalizing n with
  | nil => exact Nat.le_refl 0
  | cons g gs ih =>
    rw [ended, List.length_cons]
    split
    · exact Nat.succ_le_succ (ih _)
    · exact Nat.zero_le _

theorem begun_le_length (gs : List Glyph) (n : Nat) : begun gs n ≤ gs.length := by
  induction gs generalizing n with
  | nil => exact Nat.le_refl 0
  | cons g gs ih =>
    rw [begun, List.length_cons]
    split
    · exact Nat.zero_le _
    · exact Nat.succ_le_succ (ih _)

theorem ended_le (h : ∀ g ∈ gs, 1 ≤ g.size) (n : Nat) : ended gs n ≤ n := by
  induction gs generalizing n with
  | nil => exact Nat.zero_le _
  | cons g gs ih =>
    obtain ⟨hg, h⟩ := List.forall_mem_cons.mp h
    rw [ended]
    split
    case isTrue hle =>
      have hn := ih h (n - g.size)
      omega
    case isFalse => exact Nat.zero_le _

theorem begun_le (h : ∀ g ∈ gs, 1 ≤ g.size) (n : Nat) : begun gs n ≤ n := by
  induction gs generalizing n with
  | nil => exact Nat.zero_le _
  | cons g gs ih =>
    obtain ⟨hg, h⟩ := List.forall_mem_cons.mp h
    rw [begun]
    split
    case isTrue  => exact Nat.zero_le _
    case isFalse =>
      have hn := ih h (n - g.size)
      omega

-- A part of the bytes that is not empty belongs to some character.
theorem ended_lt_begun (hm : m < byte_count gs) (hlt : m < n) : ended gs m < begun gs n := by
  induction gs generalizing m n with
  | nil => cases hm
  | cons g gs ih =>
    rw [byte_count, List.map_cons, List.sum_cons] at hm
    have hn : n ≠ 0 := by omega
    rw [ended, begun, if_neg hn]
    split
    case isTrue hle =>
      refine Nat.succ_lt_succ ?_
      by_cases hn : m - g.size < n - g.size
      case pos => exact ih (by rw [byte_count]; omega) hn
      case neg => omega
    case isFalse => exact Nat.succ_pos _

theorem ended_append (h : n < byte_count gs) (hs : List Glyph) : ended (gs ++ hs) n = ended gs n := by
  induction gs generalizing n with
  | nil => cases h
  | cons g gs ih =>
    rw [byte_count, List.map_cons, List.sum_cons] at h
    rw [List.cons_append, ended, ended]
    split
    case isTrue hle => rw [ih (by rw [byte_count]; omega)]
    case isFalse    => rfl

theorem ended_add (gs hs : List Glyph) (n : Nat) :
    ended (gs ++ hs) (byte_count gs + n) = gs.length + ended hs n := by
  induction gs with
  | nil =>
    rw [byte_count, List.map_nil, List.sum_nil, Nat.zero_add, List.length_nil, Nat.zero_add]
    rfl
  | cons g gs ih =>
    have he : byte_count (g :: gs) = g.size + byte_count gs := rfl
    rw [List.cons_append, ended, he, if_pos (by omega), Nat.add_assoc, Nat.add_sub_cancel_left, ih,
      List.length_cons]
    omega

theorem begun_append (h : n ≤ byte_count gs) (hs : List Glyph) : begun (gs ++ hs) n = begun gs n := by
  induction gs generalizing n with
  | nil =>
    cases Nat.le_zero.mp h
    cases hs <;> rfl
  | cons g gs ih =>
    rw [byte_count, List.map_cons, List.sum_cons] at h
    rw [List.cons_append, begun, begun]
    split
    case isTrue  => rfl
    case isFalse => rw [ih (by rw [byte_count]; omega)]

theorem begun_add (h : ∀ g ∈ gs, 1 ≤ g.size) (hs : List Glyph) (n : Nat) :
    begun (gs ++ hs) (byte_count gs + n) = gs.length + begun hs n := by
  induction gs with
  | nil =>
    rw [byte_count, List.map_nil, List.sum_nil, Nat.zero_add, List.length_nil, Nat.zero_add]
    rfl
  | cons g gs ih =>
    obtain ⟨hg, h⟩ := List.forall_mem_cons.mp h
    have he : byte_count (g :: gs) = g.size + byte_count gs := rfl
    rw [List.cons_append, begun, he, if_neg (by omega), Nat.add_assoc, Nat.add_sub_cancel_left, ih h,
      List.length_cons]
    omega

end Counts

theorem length_glyphs_le (bytes : List Char) : (glyphs bytes).length ≤ bytes.length := by
  have hbegun := begun_add (fun g hg => size_pos bytes hg) [] 0
  have hle := begun_le (fun g hg => size_pos bytes hg) bytes.length
  rw [List.append_nil] at hbegun
  have hcount : byte_count (glyphs bytes) = bytes.length := sum_sizes bytes
  rw [hcount, Nat.add_zero] at hbegun
  rw [hbegun] at hle
  exact hle

theorem byte_count_glyphs (bytes : List Char) :
    byte_count (glyphs bytes) = bytes.length := sum_sizes bytes

end LossyDecoding
