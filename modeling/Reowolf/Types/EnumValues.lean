import Reowolf.Parser.ExpressionRoundTrip
import Reowolf.Parser.IntegerLiterals
import Reowolf.Protocol.IntegerRanges
import Reowolf.Types.TypeTable

namespace Reowolf.Types

open Reowolf.Parser (Token TokenIter SymbolTable consume_ident consume_integer_literal
  consume_comma_separated comma_separated is_reserved_keyword IntegerText Denotes)

-- One variant of `visit_enum_definition`. The number of a literal is cast with `as i64`.
def consume_enum_variant (iter : TokenIter) : Except Parser.Failure (EnumVariantDefinition × TokenIter) := do
  let (identifier, iter) ← consume_ident iter
  if iter.next = some .equal then
    let (variant_number, iter) ← consume_integer_literal iter.consume
    .ok (⟨identifier, some variant_number.toInt⟩, iter)
  else
    .ok (⟨identifier, none⟩, iter)

def consume_enum_variants (iter : TokenIter) : Except Parser.Failure (List EnumVariantDefinition × TokenIter) :=
  consume_comma_separated .openCurly .closeCurly consume_enum_variant "an enum variant"
    "a list of enum variants" iter

-- What is wrong with a definition: its text, or what the type table makes of it.
inductive EnumError
  | syntax_error (failure : Parser.Failure)
  | type_error (stop : Stop)

-- The variants of an enum definition, from the tokens between the braces to the type table.
def define_enum (symbols : SymbolTable) (definition_id : DefinitionId) (definition : Definition)
    (iter : TokenIter) : Except EnumError DefinedType :=
  match consume_enum_variants iter with
  | .error failure     => .error (.syntax_error failure)
  | .ok (variants, _) =>
    match Heap.build_base_enum_definition symbols definition_id definition variants with
    | .error stop => .error (.type_error stop)
    | .ok type    => .ok type

-- A variant as it is written: with the text of a literal and the number that this stands for, or without
-- a value of its own.
structure WrittenVariant where
  identifier : Identifier
  explicit   : Option (String × Nat)

namespace WrittenVariant

def tokens (written : WrittenVariant) : List Token :=
  .ident written.identifier :: (written.explicit.map fun (text, _) => [.of .equal, ⟨.integer, text, ""⟩]).getD []

structure WellFormed (written : WrittenVariant) : Prop where
  identifier : is_reserved_keyword written.identifier = false
  explicit   : ∀ text number, written.explicit = some (text, number) →
    IntegerText text.toList ∧ Denotes text.toList number

end WrittenVariant

def enum_tokens (variants : List WrittenVariant) (rest : TokenIter) : TokenIter :=
  .of .openCurly :: (comma_separated (variants.map WrittenVariant.tokens) ++ .of .closeCurly :: rest)

-- The values of the variants: the number of the literal, or one more than the value before.
def assigned_values : (next : Nat) → List WrittenVariant → List Nat
  | _, []                => []
  | next, v :: variants =>
    let value := (v.explicit.map Prod.snd).getD next
    value :: assigned_values (value + 1) variants

def integer_part : IntegerType → ConcreteTypePart
  | ⟨false, .w8⟩  => .uint8
  | ⟨false, .w16⟩ => .uint16
  | ⟨false, .w32⟩ => .uint32
  | ⟨false, .w64⟩ => .uint64
  | ⟨true, .w8⟩   => .sint8
  | ⟨true, .w16⟩  => .sint16
  | ⟨true, .w32⟩  => .sint32
  | ⟨true, .w64⟩  => .sint64

-- An integer type that has all of these values, and no smaller one has them.
def SmallestType (values : List Nat) (tag_type : ConcreteType) (size : Nat) : Prop :=
  ∃ type : IntegerType, tag_type = [integer_part type] ∧ type.bits = 8 * size ∧
    (∀ value ∈ values, type.Contains value) ∧
    ∀ other : IntegerType, (∀ value ∈ values, other.Contains value) → type.bits ≤ other.bits

-- The names in a definition that have to be different are not.
def NamesCollide (symbols : SymbolTable) (definition : Definition) (variants : List WrittenVariant) : Prop :=
  ¬(variants.map WrittenVariant.identifier).Nodup ∨
    check_poly_args_collision symbols definition.defined_in [] definition.poly_vars ≠ .ok ()

-- What is expected of a definition: the values and a type that fits, unless there is no such type or the
-- names are at fault.
structure AssignsValues (symbols : SymbolTable) (definition : Definition) (variants : List WrittenVariant)
    (result : Except EnumError DefinedType) : Prop where
  accepted : ∀ type, result = .ok type → ∃ enum, type.definition = .enum enum ∧
    enum.variants.map EnumVariant.value = (assigned_values 0 variants).map Nat.cast ∧
    SmallestType (assigned_values 0 variants) enum.tag_type enum.size
  rejected : (∃ error, result = .error error) ↔ NamesCollide symbols definition variants ∨
    ∃ value ∈ assigned_values 0 variants, ∀ type : IntegerType, ¬type.Contains value

-- A number after the cast.
def wrapped (number : Nat) : Int := (BitVec.ofNat 64 number).toInt

theorem wrapped_eq (number : Nat) : wrapped number =
    if number % 2 ^ 64 < 2 ^ 63 then (number : Int) % 2 ^ 64 else (number : Int) % 2 ^ 64 - 2 ^ 64 := by
  rw [wrapped, BitVec.toInt_eq_toNat_cond, BitVec.toNat_ofNat]
  split <;> split <;> omega

theorem wrapped_lt (number : Nat) : wrapped number ≤ 2 ^ 63 - 1 := by
  rw [wrapped_eq]
  split <;> omega

theorem wrapped_eq_max {number : Nat} : wrapped number = 2 ^ 63 - 1 ↔ number % 2 ^ 64 = 2 ^ 63 - 1 := by
  rw [wrapped_eq]
  split <;> omega

theorem wrapped_succ {number : Nat} (h : wrapped number ≠ 2 ^ 63 - 1) :
    wrapped number + 1 = wrapped (number + 1) := by
  rw [wrapped_eq, wrapped_eq] at *
  split at h <;> split <;> omega

theorem wrapped_eq_self {number : Nat} (h : number < 2 ^ 64) : wrapped number = number ↔ number < 2 ^ 63 := by
  rw [wrapped_eq]
  split <;> omega

variable {symbols : SymbolTable} {definition_id : DefinitionId} {definition : Definition}
variable {variants : List WrittenVariant} {rest : TokenIter} {next : Nat} {enum_value : Int}

-- What the parser makes of a variant.
def WrittenVariant.parsed (written : WrittenVariant) : EnumVariantDefinition :=
  ⟨written.identifier, written.explicit.map fun (_, number) => wrapped number⟩

-- Some variant but the last has the largest value that the table can go on from.
def Exhausted (next : Nat) (variants : List WrittenVariant) : Prop :=
  ∃ value ∈ (assigned_values next variants).dropLast, value % 2 ^ 64 = 2 ^ 63 - 1

instance : Decidable (Exhausted next variants) :=
  inferInstanceAs (Decidable (∃ value ∈ _, _))

theorem value_of_parsed (written : WrittenVariant) (h : enum_value + 1 = wrapped next) :
    written.parsed.value.getD (enum_value + 1) = wrapped ((written.explicit.map Prod.snd).getD next) := by
  rw [WrittenVariant.parsed]
  cases written.explicit with
  | none   => exact h
  | some _ => rfl

-- The table wraps around where the mathematical values do not.
theorem build_enum_variants_eq (variants : List WrittenVariant) (h : enum_value + 1 = wrapped next) :
    build_enum_variants enum_value (variants.map WrittenVariant.parsed) =
      if Exhausted next variants then
        .error (.parse_error ⟨["this enum variant has an integer value that is too large"]⟩)
      else .ok (List.zipWith (fun written value => ⟨written.identifier, wrapped value⟩) variants
        (assigned_values next variants)) := by
  induction variants generalizing next enum_value with
  | nil => rfl
  | cons written variants ih =>
    have hne : enum_value ≠ 2 ^ 63 - 1 := by
      have hle := wrapped_lt next
      omega
    rw [List.map_cons, build_enum_variants, if_neg hne]
    simp only [value_of_parsed written h]
    generalize hvalue : (written.explicit.map Prod.snd).getD next = value
    have hassigned : assigned_values next (written :: variants) = value :: assigned_values (value + 1) variants := by
      rw [assigned_values, hvalue]
    cases variants with
    | nil =>
      rw [if_neg]
      · rw [hassigned]
        rfl
      · rintro ⟨other, hm, _⟩
        rw [hassigned] at hm
        cases hm
    | cons second variants =>
      have hlist : (assigned_values next (written :: second :: variants)).dropLast =
          value :: (assigned_values (value + 1) (second :: variants)).dropLast := by
        rw [hassigned, assigned_values]
        rfl
      by_cases hmax : wrapped value = 2 ^ 63 - 1
      case pos =>
        rw [if_pos ⟨value, by rw [hlist]; exact List.mem_cons_self, wrapped_eq_max.mp hmax⟩, List.map_cons,
          build_enum_variants, if_pos hmax]
        rfl
      case neg =>
        rw [ih (wrapped_succ hmax)]
        have hiff : Exhausted next (written :: second :: variants) ↔ Exhausted (value + 1) (second :: variants) := by
          rw [Exhausted, hlist, List.exists_mem_cons_iff]
          exact or_iff_right fun he => hmax (wrapped_eq_max.mpr he)
        by_cases he : Exhausted (value + 1) (second :: variants)
        case pos =>
          rw [if_pos he, if_pos (hiff.mpr he)]
          rfl
        case neg =>
          rw [if_neg he, if_neg (mt hiff.mp he), hassigned]
          rfl

namespace WrittenVariant

variable {written : WrittenVariant} {text : String} {number : Nat}

-- How the parser gets along with a variant.
def outcome (written : WrittenVariant) : Except Parser.Failure EnumVariantDefinition :=
  match written.explicit with
  | none           => .ok written.parsed
  | some (text, _) =>
    (consume_integer_literal [⟨.integer, text, ""⟩]).map fun (number, _) =>
      ⟨written.identifier, some number.toInt⟩

theorem outcome_small (hw : written.WellFormed)
    (hs : ∀ text number, written.explicit = some (text, number) → number < 2 ^ 64) :
    written.outcome = .ok written.parsed := by
  obtain ⟨identifier, explicit⟩ := written
  cases explicit with
  | none => rfl
  | some literal =>
    obtain ⟨text, number⟩ := literal
    obtain ⟨ht, hd⟩ := hw.explicit text number rfl
    have hnat : (BitVec.ofNat 64 number).toNat = number := by
      rw [BitVec.toNat_ofNat, Nat.mod_eq_of_lt (hs text number rfl)]
    have hc : consume_integer_literal [⟨.integer, text, ""⟩] = .ok (BitVec.ofNat 64 number, []) :=
      (Parser.consume_integer_literal_iff ht).mpr ⟨hnat.symm ▸ hd, rfl⟩
    change (consume_integer_literal [⟨.integer, text, ""⟩]).map _ = _
    rw [hc]
    rfl

theorem outcome_large (hw : written.WellFormed) (he : written.explicit = some (text, number))
    (hl : 2 ^ 64 ≤ number) : ∃ failure, written.outcome = .error failure := by
  obtain ⟨ht, hd⟩ := hw.explicit text number he
  cases hc : consume_integer_literal [⟨.integer, text, ""⟩] with
  | error failure =>
    refine ⟨failure, ?_⟩
    rw [outcome, he]
    change Except.map _ (consume_integer_literal _) = _
    rw [hc]
    rfl
  | ok parsed =>
    obtain ⟨value, iter⟩ := parsed
    have hd' := ((Parser.consume_integer_literal_iff ht).mp hc).1
    exact absurd value.isLt (not_lt.mpr (hd'.unique hd ▸ hl))

-- What is behind a literal does not matter for it.
theorem consume_integer_literal_rest (rest : TokenIter) :
    consume_integer_literal (⟨.integer, text, ""⟩ :: rest) =
      (consume_integer_literal [⟨.integer, text, ""⟩]).map fun (number, _) => (number, rest) := by
  simp only [consume_integer_literal, if_true]
  cases Parser.from_str_radix (Parser.integer_radix text.toList).1
    ((text.toList.drop (Parser.integer_radix text.toList).2.1).filter fun x => decide (x ≠ '_')) <;> rfl

theorem reads (hw : written.WellFormed) (bound : Nat) :
    Parser.ReadsItem consume_enum_variant .closeCurly bound (written.tokens, written.outcome) := by
  obtain ⟨identifier, explicit⟩ := written
  constructor
  case left =>
    intro rest he
    cases Option.some.inj he
  case right =>
  intro rest hrest _
  have hident (rest : TokenIter) : consume_ident (.ident identifier :: rest) = .ok (identifier, rest) :=
    Parser.consume_ident_ident hw.identifier rest
  cases explicit with
  | none =>
    have hne : rest.next ≠ some .equal := by
      intro he
      rw [he] at hrest
      obtain h | h := hrest <;> cases h
    change consume_enum_variant (.ident identifier :: rest) = _
    rw [consume_enum_variant, hident, Except.ok_bind]
    exact if_neg hne
  | some literal =>
    obtain ⟨text, number⟩ := literal
    change consume_enum_variant (.ident identifier :: .of .equal :: ⟨.integer, text, ""⟩ :: rest) = _
    rw [consume_enum_variant, hident, Except.ok_bind]
    change (consume_integer_literal (⟨.integer, text, ""⟩ :: rest) >>= _) =
      ((consume_integer_literal [⟨.integer, text, ""⟩]).map _ >>= _)
    rw [consume_integer_literal_rest]
    cases consume_integer_literal [⟨.integer, text, ""⟩] <;> rfl

end WrittenVariant

theorem consume_enum_variants_tokens (hw : ∀ v ∈ variants, v.WellFormed) (rest : TokenIter) :
    consume_enum_variants (enum_tokens variants rest) =
      variants.mapM WrittenVariant.outcome >>= fun values => .ok (values, rest) := by
  have hitems : ∀ item ∈ variants.map fun v => (v.tokens, v.outcome),
      Parser.ReadsItem consume_enum_variant .closeCurly ((enum_tokens variants rest).length + 1) item := by
    intro item hm
    obtain ⟨v, hv, rfl⟩ := List.mem_map.mp hm
    exact WrittenVariant.reads (hw v hv) _
  have hfst : (variants.map fun v => (v.tokens, v.outcome)).map Prod.fst = variants.map WrittenVariant.tokens := by
    rw [List.map_map]
    rfl
  have hread : consume_enum_variants (.of .openCurly :: (comma_separated
        ((variants.map fun v => (v.tokens, v.outcome)).map Prod.fst) ++ .of .closeCurly :: rest)) =
      (variants.map fun v => (v.tokens, v.outcome)).mapM Prod.snd >>= fun values => .ok (values, rest) := by
    refine Parser.consume_comma_separated_items (by decide) _ _ hitems ?_
    rw [hfst, enum_tokens, List.length_cons]
    omega
  rw [hfst, List.mapM_map] at hread
  exact hread

theorem mapM_outcome_small (hw : ∀ v ∈ variants, v.WellFormed)
    (hs : ∀ v ∈ variants, ∀ text number, v.explicit = some (text, number) → number < 2 ^ 64) :
    variants.mapM WrittenVariant.outcome = .ok (variants.map WrittenVariant.parsed) := by
  induction variants with
  | nil => rfl
  | cons v variants ih =>
    rw [List.mapM_cons, WrittenVariant.outcome_small (hw v List.mem_cons_self) (hs v List.mem_cons_self),
      ih (fun w hm => hw w (List.mem_cons_of_mem _ hm)) fun w hm => hs w (List.mem_cons_of_mem _ hm)]
    rfl

theorem mapM_outcome_large {v : WrittenVariant} {failure : Parser.Failure} (hv : v ∈ variants)
    (he : v.outcome = .error failure) : ∃ failure, variants.mapM WrittenVariant.outcome = .error failure := by
  induction variants with
  | nil => cases hv
  | cons w variants ih =>
    rw [List.mapM_cons]
    cases hw : w.outcome with
    | error failure => exact ⟨failure, rfl⟩
    | ok value =>
      have hm : v ∈ variants := by
        cases List.mem_cons.mp hv with
        | inl h =>
          subst h
          cases he.symm.trans hw
        | inr h => exact h
      obtain ⟨failure, hrest⟩ := ih hm
      rw [hrest]
      exact ⟨failure, rfl⟩

-- Folding with a choice between two numbers gives one of all.
theorem foldl_choice {f : Int → Int → Int} (h : ∀ x y, f x y = x ∨ f x y = y) (first : Int) (values : List Int) :
    values.foldl f first ∈ first :: values := by
  induction values generalizing first with
  | nil => exact List.mem_singleton_self _
  | cons value values ih =>
    rw [List.foldl_cons]
    cases List.mem_cons.mp (ih (f first value)) with
    | inl he =>
      rw [he]
      obtain he | he := h first value <;> rw [he] <;> simp
    | inr hm => exact List.mem_cons_of_mem _ (List.mem_cons_of_mem _ hm)

theorem le_foldl_max (first : Int) (values : List Int) : ∀ value ∈ first :: values, value ≤ values.foldl max first := by
  induction values generalizing first with
  | nil =>
    intro value hm
    exact (List.mem_singleton.mp hm).le
  | cons second values ih =>
    intro value hm
    have hfirst := ih (max first second) _ List.mem_cons_self
    obtain rfl | hm := List.mem_cons.mp hm
    · exact (le_max_left _ _).trans hfirst
    · obtain rfl | hm := List.mem_cons.mp hm
      · exact (le_max_right _ _).trans hfirst
      · exact ih _ value (List.mem_cons_of_mem _ hm)

-- A number that an unsigned type does not have is in no type of that width.
theorem not_contains_of_width {signed : Bool} {width : Width} {number : Nat} (h : 2 ^ width.bits ≤ number) :
    ¬(⟨signed, width⟩ : IntegerType).Contains number := by
  intro hc
  have hle := hc.2
  cases signed <;> cases width <;>
    simp only [IntegerType.max, IntegerType.bits, Width.bits, if_true, if_false, Bool.false_eq_true] at h hle <;> omega

theorem contains_unsigned {width : Width} {number : Nat} (h : number < 2 ^ width.bits) :
    (⟨false, width⟩ : IntegerType).Contains number := by
  constructor
  · exact Int.natCast_nonneg _
  · cases width <;>
      simp only [IntegerType.max, IntegerType.bits, Width.bits, if_false, Bool.false_eq_true] at h ⊢ <;> omega

-- The type that is chosen for numbers up to the largest of them.
theorem tag_type_smallest {values : List Nat} {largest : Nat} (hlt : largest < 2 ^ 63)
    (hle : ∀ value ∈ values, value ≤ largest) (hm : values = [] ∧ largest = 0 ∨ largest ∈ values) {smallest : Int}
    (hs : 0 ≤ smallest) :
    SmallestType values (variant_tag_type_from_values smallest largest).1
      (variant_tag_type_from_values smallest largest).2 := by
  -- An unsigned type of the least width with the largest number.
  have hfits (width : Width) (size : Nat) (hsize : width.bits = 8 * size) (hc : largest < 2 ^ width.bits)
      (hsmall : ∀ other : Width, other.bits < width.bits → 2 ^ other.bits ≤ largest) :
      SmallestType values [integer_part ⟨false, width⟩] size := by
    refine ⟨⟨false, width⟩, rfl, hsize, fun value hv => ?_, fun other hother => ?_⟩
    · exact (IntegerType.contains_zero _).between (contains_unsigned hc) (Int.natCast_nonneg _)
        (Int.ofNat_le.mpr (hle value hv))
    · by_contra hlt
      have hge := hsmall other.width (not_le.mp hlt)
      obtain ⟨_, rfl⟩ | hm := hm
      · exact absurd hge (not_le.mpr (Nat.two_pow_pos _))
      · exact not_contains_of_width hge (hother largest hm)
  rw [variant_tag_type_from_values, if_pos hs]
  split_ifs with h₁ h₂ h₃
  · refine hfits .w8 1 rfl ?_ fun other ho => ?_
    · rw [Width.bits]
      omega
    · cases other <;> simp only [Width.bits] at ho ⊢ <;> omega
  · refine hfits .w16 2 rfl ?_ fun other ho => ?_
    · rw [Width.bits]
      omega
    · cases other <;> simp only [Width.bits] at ho ⊢ <;> omega
  · refine hfits .w32 4 rfl ?_ fun other ho => ?_
    · rw [Width.bits]
      omega
    · cases other <;> simp only [Width.bits] at ho ⊢ <;> omega
  · refine hfits .w64 8 rfl ?_ fun other ho => ?_
    · rw [Width.bits]
      omega
    · cases other <;> simp only [Width.bits] at ho ⊢ <;> omega

-- The type of the numbers of a definition.
theorem tag_smallest {values : List Nat} (h : ∀ value ∈ values, value < 2 ^ 63) :
    SmallestType values
      (variant_tag_type_from_values ((values.map Nat.cast).tail.foldl min ((values.map Nat.cast).headD 0))
        ((values.map Nat.cast).tail.foldl max ((values.map Nat.cast).headD 0))).1
      (variant_tag_type_from_values ((values.map Nat.cast).tail.foldl min ((values.map Nat.cast).headD 0))
        ((values.map Nat.cast).tail.foldl max ((values.map Nat.cast).headD 0))).2 := by
  cases values with
  | nil => exact tag_type_smallest (Nat.two_pow_pos 63) (by simp) (.inl ⟨rfl, rfl⟩) le_rfl
  | cons first values =>
    simp only [List.map_cons, List.tail_cons, List.headD_cons]
    have hmin := foldl_choice min_choice (first : Int) (values.map Nat.cast)
    have hmax := foldl_choice max_choice (first : Int) (values.map Nat.cast)
    have hle := le_foldl_max (first : Int) (values.map Nat.cast)
    rw [← List.map_cons] at hmin hmax hle
    obtain ⟨smallest, _, hs⟩ := List.mem_map.mp hmin
    obtain ⟨largest, hm, hl⟩ := List.mem_map.mp hmax
    rw [← hl] at hle
    rw [← hs, ← hl]
    refine tag_type_smallest (h largest hm) (fun value hv => ?_) (.inr hm) (Int.natCast_nonneg _)
    exact Int.ofNat_le.mp (hle _ (List.mem_map.mpr ⟨value, hv, rfl⟩))

theorem length_assigned_values (next : Nat) (variants : List WrittenVariant) :
    (assigned_values next variants).length = variants.length := by
  induction variants generalizing next with
  | nil => rfl
  | cons v variants ih => rw [assigned_values, List.length_cons, List.length_cons, ih]

-- The variants in the type table: the names as they are written, the values after the cast.
def built_variants (variants : List WrittenVariant) (values : List Nat) : List EnumVariant :=
  List.zipWith (fun written value => ⟨written.identifier, wrapped value⟩) variants values

theorem built_values {values : List Nat} (h : values.length = variants.length) :
    (built_variants variants values).map EnumVariant.value = values.map wrapped := by
  induction variants generalizing values with
  | nil =>
    cases List.length_eq_zero_iff.mp h
    rfl
  | cons v variants ih =>
    cases values with
    | nil => cases h
    | cons value values => exact congrArg (wrapped value :: ·) (ih (Nat.succ.inj h))

theorem built_identifiers {values : List Nat} (h : values.length = variants.length) :
    (built_variants variants values).map EnumVariant.identifier = variants.map WrittenVariant.identifier := by
  induction variants generalizing values with
  | nil => rfl
  | cons v variants ih =>
    cases values with
    | nil => cases h
    | cons value values => exact congrArg (v.identifier :: ·) (ih (Nat.succ.inj h))

theorem build_base_enum_definition_of_values {built : List EnumVariant} {values : List EnumVariantDefinition}
    (hb : build_enum_variants (-1) values = .ok built) (hn : (built.map EnumVariant.identifier).Nodup)
    (hp : check_poly_args_collision symbols definition.defined_in [] definition.poly_vars = .ok ()) :
    ∃ type enum, Heap.build_base_enum_definition symbols definition_id definition values = .ok type ∧
      type.definition = .enum enum ∧ enum.variants = built ∧
      (enum.tag_type, enum.size) = variant_tag_type_from_values
        ((built.map EnumVariant.value).tail.foldl min ((built.map EnumVariant.value).headD 0))
        ((built.map EnumVariant.value).tail.foldl max ((built.map EnumVariant.value).headD 0)) := by
  have hcheck : check_identifier_collision (built.map EnumVariant.identifier) "enum variant" = .ok () := if_pos hn
  simp only [Heap.build_base_enum_definition, hb, hcheck, hp, Except.ok_bind]
  exact ⟨_, _, rfl, rfl, rfl, rfl⟩

theorem build_base_enum_definition_error (definition_id : DefinitionId) {built : List EnumVariant}
    {values : List EnumVariantDefinition}
    (hb : build_enum_variants (-1) values = .ok built)
    (h : ¬(built.map EnumVariant.identifier).Nodup ∨
      check_poly_args_collision symbols definition.defined_in [] definition.poly_vars ≠ .ok ()) :
    ∃ stop, Heap.build_base_enum_definition symbols definition_id definition values = .error stop := by
  cases hr : Heap.build_base_enum_definition symbols definition_id definition values with
  | error stop => exact ⟨stop, rfl⟩
  | ok type =>
    simp only [Heap.build_base_enum_definition, hb, Except.ok_bind] at hr
    obtain ⟨_, hcheck, hr⟩ := Except.bind_eq_ok.mp hr
    obtain ⟨_, hpoly, _⟩ := Except.bind_eq_ok.mp hr
    cases h with
    | inl h => cases (if_neg h : check_identifier_collision _ "enum variant" = _).symm.trans hcheck
    | inr h => exact absurd hpoly h

-- What comes of a definition whose literals fit.
theorem define_enum_small (hw : ∀ v ∈ variants, v.WellFormed)
    (hs : ∀ v ∈ variants, ∀ text number, v.explicit = some (text, number) → number < 2 ^ 64) :
    define_enum symbols definition_id definition (enum_tokens variants rest) =
      match Heap.build_base_enum_definition symbols definition_id definition
        (variants.map WrittenVariant.parsed) with
      | .error stop => .error (.type_error stop)
      | .ok type    => .ok type := by
  rw [define_enum, consume_enum_variants_tokens hw, mapM_outcome_small hw hs]
  rfl

theorem define_enum_large {v : WrittenVariant} {text : String} {number : Nat} (hw : ∀ v ∈ variants, v.WellFormed)
    (hv : v ∈ variants) (he : v.explicit = some (text, number)) (hl : 2 ^ 64 ≤ number) :
    ∃ error, define_enum symbols definition_id definition (enum_tokens variants rest) = .error error := by
  obtain ⟨_, hf⟩ := WrittenVariant.outcome_large (hw v hv) he hl
  obtain ⟨failure, hf⟩ := mapM_outcome_large hv hf
  refine ⟨.syntax_error failure, ?_⟩
  rw [define_enum, consume_enum_variants_tokens hw, hf]
  rfl

theorem explicit_mem_assigned {v : WrittenVariant} {text : String} {number : Nat} (hv : v ∈ variants)
    (he : v.explicit = some (text, number)) : number ∈ assigned_values next variants := by
  induction variants generalizing next with
  | nil => cases hv
  | cons w variants ih =>
    rw [assigned_values]
    cases List.mem_cons.mp hv with
    | inl h =>
      subst h
      rw [he]
      exact List.mem_cons_self
    | inr h => exact List.mem_cons_of_mem _ (ih h)

-- No integer type has a number that is not below 2^64.
theorem representable_iff {number : Nat} :
    (∀ type : IntegerType, ¬type.Contains number) ↔ 2 ^ 64 ≤ number := by
  constructor
  · intro h
    by_contra hlt
    exact h ⟨false, .w64⟩ (contains_unsigned (not_le.mp hlt))
  · rintro h ⟨signed, width⟩
    refine not_contains_of_width (h.trans' ?_)
    cases width <;> decide

-- Some literal stands for a number that the parser has no room for.
def TooLarge (variants : List WrittenVariant) : Prop :=
  ∃ v ∈ variants, ∃ text number, v.explicit = some (text, number) ∧ 2 ^ 64 ≤ number

theorem small_of_not_tooLarge (h : ¬TooLarge variants) :
    ∀ v ∈ variants, ∀ text number, v.explicit = some (text, number) → number < 2 ^ 64 := by
  intro v hv text number he
  by_contra hlt
  exact h ⟨v, hv, text, number, he, not_lt.mp hlt⟩

theorem TooLarge.value (h : TooLarge variants) : ∃ value ∈ assigned_values 0 variants, 2 ^ 64 ≤ value := by
  obtain ⟨v, hv, text, number, he, hl⟩ := h
  exact ⟨number, explicit_mem_assigned hv he, hl⟩

-- What an accepted definition gets.
theorem define_enum_accepted (definition_id : DefinitionId) (rest : TokenIter) (hw : ∀ v ∈ variants, v.WellFormed)
    (hn : ¬NamesCollide symbols definition variants) (hl : ¬TooLarge variants) (he : ¬Exhausted 0 variants) :
    ∃ type enum, define_enum symbols definition_id definition (enum_tokens variants rest) = .ok type ∧
      type.definition = .enum enum ∧
      enum.variants.map EnumVariant.value = (assigned_values 0 variants).map wrapped ∧
      (enum.tag_type, enum.size) = variant_tag_type_from_values
        (((assigned_values 0 variants).map wrapped).tail.foldl min
          (((assigned_values 0 variants).map wrapped).headD 0))
        (((assigned_values 0 variants).map wrapped).tail.foldl max
          (((assigned_values 0 variants).map wrapped).headD 0)) := by
  rw [NamesCollide, not_or, not_not, not_not] at hn
  have hzero : (-1 : Int) + 1 = wrapped 0 := rfl
  have hbuild := build_enum_variants_eq variants hzero
  rw [if_neg he] at hbuild
  have hlen := length_assigned_values 0 variants
  obtain ⟨type, enum, hr, htype, hvariants, htag⟩ := build_base_enum_definition_of_values hbuild
    ((built_identifiers hlen).symm ▸ hn.1) hn.2
  have hvalues := built_values hlen
  rw [built_variants] at hvalues
  rw [hvalues] at htag
  refine ⟨type, enum, ?_, htype, hvariants ▸ hvalues, htag⟩
  rw [define_enum_small hw (small_of_not_tooLarge hl), hr]

theorem define_enum_error_iff (symbols : SymbolTable) (definition_id : DefinitionId) (definition : Definition)
    (rest : TokenIter) (hw : ∀ v ∈ variants, v.WellFormed) :
    (∃ error, define_enum symbols definition_id definition (enum_tokens variants rest) = .error error) ↔
      NamesCollide symbols definition variants ∨ TooLarge variants ∨ Exhausted 0 variants := by
  have hzero : (-1 : Int) + 1 = wrapped 0 := rfl
  by_cases hl : TooLarge variants
  case pos =>
    refine iff_of_true ?_ (.inr (.inl hl))
    obtain ⟨v, hv, text, number, he, hl⟩ := hl
    exact define_enum_large hw hv he hl
  case neg =>
  have hbuild := build_enum_variants_eq variants hzero
  by_cases he : Exhausted 0 variants
  case pos =>
    refine iff_of_true ?_ (.inr (.inr he))
    rw [if_pos he] at hbuild
    rw [define_enum_small hw (small_of_not_tooLarge hl), Heap.build_base_enum_definition, hbuild]
    exact ⟨_, rfl⟩
  case neg =>
  by_cases hn : NamesCollide symbols definition variants
  case pos =>
    refine iff_of_true ?_ (.inl hn)
    rw [if_neg he] at hbuild
    have hids := built_identifiers (length_assigned_values 0 variants)
    rw [NamesCollide, ← hids] at hn
    obtain ⟨stop, hr⟩ := build_base_enum_definition_error definition_id hbuild hn
    rw [define_enum_small hw (small_of_not_tooLarge hl), hr]
    exact ⟨_, rfl⟩
  case neg =>
    refine iff_of_false ?_ (by simp [hn, hl, he])
    obtain ⟨type, _, hr, _⟩ := define_enum_accepted definition_id rest hw hn hl he
    rintro ⟨error, herror⟩
    cases hr.symm.trans herror

-- The values are those of the definition, and the definition is refused for good reason, unless the cast
-- gets in the way or the table gives up behind the largest number of an `i64`.
theorem enum_values_iff (symbols : SymbolTable) (definition_id : DefinitionId) (definition : Definition)
    (variants : List WrittenVariant) (rest : TokenIter) (hw : ∀ v ∈ variants, v.WellFormed) :
    AssignsValues symbols definition variants
        (define_enum symbols definition_id definition (enum_tokens variants rest)) ↔
      NamesCollide symbols definition variants ∨ TooLarge variants ∨
        ((∀ value ∈ assigned_values 0 variants, value < 2 ^ 63) ∧
          ∀ value ∈ (assigned_values 0 variants).dropLast, value ≠ 2 ^ 63 - 1) ∨
        ((∃ value ∈ assigned_values 0 variants, 2 ^ 64 ≤ value) ∧ Exhausted 0 variants) := by
  have hiff := define_enum_error_iff symbols definition_id definition rest hw
  have hlarge : (∃ value ∈ assigned_values 0 variants, ∀ type : IntegerType, ¬type.Contains value) ↔
      ∃ value ∈ assigned_values 0 variants, 2 ^ 64 ≤ value := by simp only [representable_iff]
  by_cases hn : NamesCollide symbols definition variants
  case pos =>
    refine iff_of_true ⟨fun type hr => ?_, by rw [hiff]; simp [hn]⟩ (.inl hn)
    obtain ⟨error, he⟩ := hiff.mpr (.inl hn)
    cases hr.symm.trans he
  case neg =>
  by_cases hl : TooLarge variants
  case pos =>
    refine iff_of_true ⟨fun type hr => ?_, ?_⟩ (.inr (.inl hl))
    · obtain ⟨error, he⟩ := hiff.mpr (.inr (.inl hl))
      cases hr.symm.trans he
    · exact iff_of_true (hiff.mpr (.inr (.inl hl))) (.inr (hlarge.mpr hl.value))
  case neg =>
  by_cases he : Exhausted 0 variants
  case pos =>
    obtain ⟨error, herror⟩ := hiff.mpr (.inr (.inr he))
    constructor
    case mp =>
      intro h
      obtain h | h := h.rejected.mp ⟨error, herror⟩
      · exact .inl h
      · exact .inr (.inr (.inr ⟨hlarge.mp h, he⟩))
    case mpr =>
      rintro (h | h | ⟨hsmall, hmax⟩ | ⟨h, _⟩)
      · exact absurd h hn
      · exact absurd h hl
      · obtain ⟨value, hm, hvalue⟩ := he
        have hlt := hsmall value (List.dropLast_subset _ hm)
        rw [Nat.mod_eq_of_lt (by omega)] at hvalue
        exact absurd hvalue (hmax value hm)
      · refine ⟨fun type hr => ?_, iff_of_true ⟨error, herror⟩ (.inr (hlarge.mpr h))⟩
        cases hr.symm.trans herror
  case neg =>
    obtain ⟨type, enum, hr, htype, hvalues, htag⟩ := define_enum_accepted definition_id rest hw hn hl he
    have hno : ¬∃ error, define_enum symbols definition_id definition (enum_tokens variants rest) = .error error := by
      rw [hiff]
      simp [hn, hl, he]
    constructor
    case mp =>
      intro h
      obtain ⟨enum', htype', hvalues', hsmallest⟩ := h.accepted type hr
      cases htype.symm.trans htype'
      obtain ⟨tag, _, _, hcontains, _⟩ := hsmallest
      have hlt : ∀ value ∈ assigned_values 0 variants, value < 2 ^ 64 := by
        intro value hm
        by_contra hge
        exact representable_iff.mpr (not_lt.mp hge) tag (hcontains value hm)
      have hself := List.map_inj_left.mp (hvalues.symm.trans hvalues')
      have hsmall : ∀ value ∈ assigned_values 0 variants, value < 2 ^ 63 :=
        fun value hm => (wrapped_eq_self (hlt value hm)).mp (hself value hm)
      refine .inr (.inr (.inl ⟨hsmall, fun value hm hmax => he ⟨value, hm, ?_⟩⟩))
      omega
    case mpr =>
      rintro (h | h | ⟨hsmall, _⟩ | ⟨_, h⟩)
      · exact absurd h hn
      · exact absurd h hl
      · have hself : (assigned_values 0 variants).map wrapped = (assigned_values 0 variants).map Nat.cast :=
          List.map_congr_left fun value hm =>
            (wrapped_eq_self ((hsmall value hm).trans (by norm_num))).mpr (hsmall value hm)
        constructor
        case accepted =>
          intro type' hr'
          cases hr.symm.trans hr'
          refine ⟨enum, htype, hvalues.trans hself, ?_⟩
          rw [hself] at htag
          have hsmallest := tag_smallest hsmall
          rw [← htag] at hsmallest
          exact hsmallest
        case rejected =>
          refine iff_of_false hno ?_
          rintro (h | h)
          · exact hn h
          · obtain ⟨value, hm, hge⟩ := hlarge.mp h
            have hlt := hsmall value hm
            omega
      · exact absurd h he

-- The definition `enum E { A = 5, B }`.
theorem enum_values_successor :
    AssignsValues .new ⟨none, "E", [], .enum []⟩ [⟨"A", some ("5", 5)⟩, ⟨"B", none⟩]
      (define_enum .new 0 ⟨none, "E", [], .enum []⟩
        (enum_tokens [⟨"A", some ("5", 5)⟩, ⟨"B", none⟩] [])) := by
  refine (enum_values_iff _ _ _ _ _ ?_).mpr (.inr (.inr (.inl ⟨by decide, by decide⟩)))
  intro v hv
  obtain rfl | hv := List.mem_cons.mp hv
  · refine ⟨rfl, ?_⟩
    rintro text number he
    cases he
    have htext : "5".toList = ['5'] := rfl
    rw [htext]
    exact ⟨⟨'5', [], rfl, rfl, List.all_eq_true.mp rfl⟩,
      ⟨[5], by decide, by decide, .cons ⟨rfl, by decide⟩ .nil⟩⟩
  · cases List.mem_singleton.mp hv
    exact ⟨rfl, fun _ _ he => by cases he⟩

-- The definition `enum E { A = 9223372036854775808 }`, the variant of which gets the least number of an `s64`.
theorem enum_values_wrapped :
    (∃ type enum, define_enum .new 0 ⟨none, "E", [], .enum []⟩
        (enum_tokens [⟨"A", some ("9223372036854775808", 2 ^ 63)⟩] []) = .ok type ∧
      type.definition = .enum enum ∧ enum.variants = [⟨"A", -2 ^ 63⟩] ∧ enum.tag_type = [.sint64]) ∧
    ¬AssignsValues .new ⟨none, "E", [], .enum []⟩ [⟨"A", some ("9223372036854775808", 2 ^ 63)⟩]
      (define_enum .new 0 ⟨none, "E", [], .enum []⟩
        (enum_tokens [⟨"A", some ("9223372036854775808", 2 ^ 63)⟩] [])) := by
  constructor
  case left => exact ⟨_, _, rfl, rfl, rfl, rfl⟩
  case right =>
    intro h
    obtain ⟨enum, htype, hvalues, _⟩ := h.accepted _ rfl
    cases htype
    cases hvalues

end Reowolf.Types
