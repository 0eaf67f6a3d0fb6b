import Mathlib.Data.List.Chain
import Mathlib.Data.List.Forall2
import Reowolf.Types.InferenceRoutines

namespace Reowolf.Types

open InferenceTypePart (signature)

-- There is no concrete type for a marker, nor for a part that is not inferred.
def InferenceTypePart.concrete_part : InferenceTypePart → Option ConcreteTypePart
  | marker _ | unknown | numberLike | integerLike | arrayLike | portLike => none
  | void => some .void
  | message => some .message
  | bool => some .bool
  | uint8 => some .uint8
  | uint16 => some .uint16
  | uint32 => some .uint32
  | uint64 => some .uint64
  | sint8 => some .sint8
  | sint16 => some .sint16
  | sint32 => some .sint32
  | sint64 => some .sint64
  | character => some .character
  | string => some .string
  | array => some .array
  | slice => some .slice
  | input => some .input
  | output => some .output
  | «instance» id num => some (.«instance» id num)

namespace InferenceType

-- Markers are left out, and so is the part behind a string. The source panics at parts that are not
-- inferred.
def write_parts : List InferenceTypePart → ConcreteType → Option ConcreteType
  | [], concrete_type => some concrete_type
  | .marker _ :: parts, concrete_type => write_parts parts concrete_type
  | [.string], concrete_type => some (concrete_type ++ [.string])
  | .string :: _ :: parts, concrete_type => write_parts parts (concrete_type ++ [.string])
  | part :: parts, concrete_type => do
    let converted_part ← part.concrete_part
    write_parts parts (concrete_type ++ [converted_part])

def write_concrete_type (t : InferenceType) (concrete_type : ConcreteType) : Option ConcreteType :=
  write_parts t.parts concrete_type

end InferenceType

-- The parts of the inference type for a part of a concrete type. A string and a message have their
-- elements behind them. Procedures have no such type.
def ConcreteTypePart.inference_parts : ConcreteTypePart → Option (List InferenceTypePart)
  | void => some [.void]
  | message => some [.message, .uint8]
  | bool => some [.bool]
  | uint8 => some [.uint8]
  | uint16 => some [.uint16]
  | uint32 => some [.uint32]
  | uint64 => some [.uint64]
  | sint8 => some [.sint8]
  | sint16 => some [.sint16]
  | sint32 => some [.sint32]
  | sint64 => some [.sint64]
  | character => some [.character]
  | string => some [.string, .character]
  | array => some [.array]
  | slice => some [.slice]
  | input => some [.input]
  | output => some [.output]
  | «instance» id num => some [.«instance» id num]
  | function _ _ | component _ _ => none

def determine_inference_type_from_concrete_type : ConcreteType → Option (List InferenceTypePart)
  | [] => some []
  | concrete_part :: concrete_type => do
    let parts ← concrete_part.inference_parts
    let rest ← determine_inference_type_from_concrete_type concrete_type
    return parts ++ rest

-- Behind the first part are the polymorphic arguments, or there is an error about the one that is not
-- completely inferred.
def write_arguments : List InferenceType → (poly_idx : Nat) → ConcreteType →
    Option (Except Nat ConcreteType)
  | [], _, concrete_type => some (.ok concrete_type)
  | poly_type :: inference, poly_idx, concrete_type =>
    if poly_type.is_done then do
      let concrete_type ← poly_type.write_concrete_type concrete_type
      write_arguments inference (poly_idx + 1) concrete_type
    else
      some (.error poly_idx)

def inference_type_to_concrete_type (inference : List InferenceType)
    (first_concrete_part : ConcreteTypePart) : Option (Except Nat ConcreteType) :=
  write_arguments inference 0 [first_concrete_part]

namespace ConcreteType

-- As many types as the number says.
abbrev Forest (n : Nat) (concrete_type : ConcreteType) : Prop :=
  PrefixTerms.Forest ConcreteTypePart.num_embedded n concrete_type

variable {n : Nat} {c : ConcreteType} {cs : List ConcreteType}

theorem subtree_len_eq (h : Forest n c) (hn : n ≠ 0) (rest : ConcreteType) :
    subtree_len n (c ++ rest) = c.length := by
  induction h with
  | nil => exact absurd rfl hn
  | @cons n p c h ih =>
    have hd : n + 1 + p.num_embedded - 1 = n + p.num_embedded := by omega
    rw [List.cons_append, subtree_len, hd]
    split
    case isTrue hz =>
      rw [hz] at h
      cases h
      rfl
    case isFalse hz => rw [ih hz, List.length_cons]

-- The iterator cuts types that are written one behind the other where they end.
theorem subtrees_flatten (h : ∀ c ∈ cs, Forest 1 c) : subtrees cs.length cs.flatten = cs := by
  induction cs with
  | nil => rfl
  | cons c cs ih =>
    obtain ⟨hc, hcs⟩ := List.forall_mem_cons.mp h
    have hlen := subtree_len_eq hc Nat.one_ne_zero cs.flatten
    rw [List.length_cons, List.flatten_cons, subtrees, hlen, List.take_left, List.drop_left, ih hcs]

end ConcreteType

namespace InferenceType

-- Without its markers, the inference type of the concrete type.
structure Denotes (t : InferenceType) (c : ConcreteType) : Prop where
  tree  : ConcreteType.Forest 1 c
  parts : determine_inference_type_from_concrete_type c = some (signature.erase t.parts)

-- Behind a string and a message are their elements.
def Element (part element : InferenceTypePart) : Prop :=
  (part = .string → element = .character) ∧ (part = .message → element = .uint8)

instance (part element : InferenceTypePart) : Decidable (Element part element) :=
  inferInstanceAs (Decidable (_ ∧ _))

-- A type of which nothing is left to infer.
structure FullyInferred (t : InferenceType) : Prop where
  tree     : signature.Forest 1 t.parts
  done     : t.is_done = true
  concrete : ∀ p ∈ t.parts, p.is_concrete = true
  elements : (signature.erase t.parts).IsChain Element

-- The source leaves out the elements of a string if there is no marker in front of them, and it does
-- not leave out the elements of a message.
structure Convertible (parts : List InferenceTypePart) : Prop where
  message : .message ∉ parts
  string  : parts.IsChain fun part next => part = .string → next = .character

variable {n : Nat} {t : InferenceType} {parts : List InferenceTypePart}

theorem Convertible.of_cons {p : InferenceTypePart} (h : Convertible (p :: parts)) :
    Convertible parts :=
  ⟨fun hm => h.message (.tail _ hm), h.string.of_cons⟩

-- A part that is neither a string nor a message has the same number of arguments in both types.
theorem concrete_part_spec {p : InferenceTypePart} (hm : p.is_marker = false)
    (hc : p.is_concrete = true) (hs : p ≠ .string) (hmsg : p ≠ .message) :
    ∃ c, p.concrete_part = some c ∧ c.num_embedded = p.arity ∧ c.inference_parts = some [p] := by
  cases p <;> simp_all [InferenceTypePart.is_marker, InferenceTypePart.is_concrete] <;>
    first
    | exact ⟨_, rfl, rfl, rfl⟩
    | exact ⟨_, rfl, by simp [ConcreteTypePart.num_embedded, InferenceTypePart.arity,
        InferenceTypePart.depth_change], rfl⟩

@[simp]
theorem write_parts_marker (m : Nat) (w : ConcreteType) :
    write_parts (.marker m :: parts) w = write_parts parts w := by
  simp [write_parts]

theorem write_parts_string (p : InferenceTypePart) (w : ConcreteType) :
    write_parts (.string :: p :: parts) w = write_parts parts (w ++ [.string]) := by
  simp [write_parts]

theorem write_parts_part {p : InferenceTypePart} {c : ConcreteTypePart} (hp : p ≠ .string)
    (hc : p.concrete_part = some c) (w : ConcreteType) :
    write_parts (p :: parts) w = write_parts parts (w ++ [c]) := by
  cases p <;> simp_all [write_parts, InferenceTypePart.concrete_part]

theorem eq_marker {p : InferenceTypePart} (h : p.is_marker = true) : ∃ m, p = .marker m := by
  cases p <;> simp_all [InferenceTypePart.is_marker]

-- Behind a string in a well-formed type is another part, and it is a character or a marker.
theorem exists_element (hf : signature.Forest n (.string :: parts))
    (he : (signature.erase (.string :: parts)).IsChain Element) :
    ∃ p rest, parts = p :: rest ∧ (p = .character ∨ p.is_marker = true) := by
  obtain ⟨k, _, hf⟩ := hf.of_cons
  have hf : signature.Forest (k + 1) parts := hf
  obtain ⟨p, rest, hp, _⟩ := hf.exists_cons
  subst hp
  refine ⟨p, rest, rfl, ?_⟩
  cases hm : p.is_marker with
  | true  => exact .inr rfl
  | false =>
    rw [TermSignature.erase_cons_unmarked rfl, TermSignature.erase_cons_unmarked hm,
      List.isChain_cons_cons] at he
    exact .inl (he.left.left rfl)

-- What is written for convertible parts are as many types as these are, and their inference types
-- are the parts themselves.
theorem write_parts_exact (hf : signature.Forest n parts) (hc : ∀ p ∈ parts, p.is_concrete = true)
    (he : (signature.erase parts).IsChain Element) (hconv : Convertible parts) :
    ∃ c, ConcreteType.Forest n c ∧
      determine_inference_type_from_concrete_type c = some (signature.erase parts) ∧
      ∀ w, write_parts parts w = some (w ++ c) := by
  induction hk : parts.length using Nat.strongRecOn generalizing parts n with
  | _ k ih =>
    match parts with
    | [] =>
      cases hf
      exact ⟨[], .nil, rfl, by simp [write_parts]⟩
    | p :: rest =>
      obtain ⟨hcp, hcrest⟩ := List.forall_mem_cons.mp hc
      obtain ⟨j, hj, hfrest⟩ := hf.of_cons
      subst hj
      cases hm : p.is_marker with
      | true =>
        obtain ⟨m, hpm⟩ := eq_marker hm
        subst hpm
        rw [TermSignature.erase_cons_marker hm] at he ⊢
        obtain ⟨c, hcf, hd, hw⟩ := ih rest.length (by simp [← hk]) (hf.of_marker hm) hcrest he
          hconv.of_cons rfl
        exact ⟨c, hcf, hd, by simp [hw]⟩
      | false =>
        by_cases hs : p = .string
        case pos =>
          subst hs
          obtain ⟨q, rest', hrest, hq⟩ := exists_element hf he
          subst hrest
          have hq : q = .character := (List.isChain_cons_cons.mp hconv.string).left rfl
          subst hq
          rw [TermSignature.erase_cons_unmarked rfl, TermSignature.erase_cons_unmarked rfl] at he ⊢
          obtain ⟨k', hk', hf'⟩ := hfrest.of_cons
          cases hk'
          obtain ⟨c, hcf, hd, hw⟩ := ih rest'.length (by rw [← hk, List.length_cons, List.length_cons]; omega) hf'
            (List.forall_mem_cons.mp hcrest).right he.of_cons.of_cons hconv.of_cons.of_cons rfl
          refine ⟨.string :: c, .cons hcf, ?_, fun w => ?_⟩
          · simp [determine_inference_type_from_concrete_type, ConcreteTypePart.inference_parts, hd]
          · rw [write_parts_string, hw]
            simp
        case neg =>
          have hmsg : p ≠ .message := fun hp => hconv.message (hp ▸ .head _)
          obtain ⟨cp, hcp, harity, hparts⟩ := concrete_part_spec hm hcp hs hmsg
          rw [TermSignature.erase_cons_unmarked hm] at he ⊢
          obtain ⟨c, hcf, hd, hw⟩ := ih rest.length (by simp [← hk]) hfrest hcrest he.of_cons
            hconv.of_cons rfl
          refine ⟨cp :: c, .cons ?_, ?_, fun w => ?_⟩
          · rw [harity]
            exact hcf
          · simp [determine_inference_type_from_concrete_type, hparts, hd]
          · rw [write_parts_part hs hcp, hw]
            simp

theorem isChain_cons_of_ne {p : InferenceTypePart} (hp : p ≠ .string)
    (h : parts.IsChain fun part next => part = .string → next = .character) :
    (p :: parts).IsChain fun part next => part = .string → next = .character := by
  cases parts with
  | nil        => exact List.isChain_singleton _
  | cons q rest => exact List.isChain_cons_cons.mpr ⟨fun hs => absurd hs hp, h⟩

-- At most one part is left out for each string, and for each exactly if it is the element.
theorem le_written_length (hf : signature.Forest n parts)
    (he : (signature.erase parts).IsChain Element) {w r : ConcreteType}
    (hw : write_parts parts w = some r) :
    (signature.erase parts).length + w.length ≤ r.length + parts.count .string ∧
    ((signature.erase parts).length + w.length = r.length + parts.count .string →
      parts.IsChain fun part next => part = .string → next = .character) := by
  induction hk : parts.length using Nat.strongRecOn generalizing parts n w with
  | _ k ih =>
    match parts with
    | [] =>
      cases hw
      exact ⟨by simp, fun _ => .nil⟩
    | p :: rest =>
      obtain ⟨j, hj, hfrest⟩ := hf.of_cons
      subst hj
      cases hm : p.is_marker with
      | true =>
        obtain ⟨m, hpm⟩ := eq_marker hm
        subst hpm
        rw [TermSignature.erase_cons_marker hm] at he ⊢
        rw [write_parts_marker] at hw
        obtain ⟨hle, hchain⟩ := ih rest.length (by simp [← hk]) (hf.of_marker hm) he hw rfl
        have hcount : (InferenceTypePart.marker m :: rest).count .string = rest.count .string := by
          simp
        rw [hcount]
        exact ⟨hle, fun h => isChain_cons_of_ne nofun (hchain h)⟩
      | false =>
        by_cases hs : p = .string
        case pos =>
          subst hs
          obtain ⟨q, rest', hrest, hq⟩ := exists_element hf he
          subst hrest
          rw [write_parts_string] at hw
          obtain ⟨k', hk', hf'⟩ := hfrest.of_cons
          rw [TermSignature.erase_cons_unmarked rfl] at he ⊢
          cases hqm : q.is_marker with
          | true =>
            obtain ⟨m, hqm'⟩ := eq_marker hqm
            subst hqm'
            rw [TermSignature.erase_cons_marker hqm] at he ⊢
            obtain ⟨hle, _⟩ := ih rest'.length (by rw [← hk, List.length_cons, List.length_cons]; omega) hf' he.of_cons hw rfl
            simp only [List.length_append, List.length_cons, List.length_nil] at hle
            have hcount : (InferenceTypePart.string :: .marker m :: rest').count .string =
                rest'.count .string + 1 := by simp
            rw [hcount, List.length_cons]
            exact ⟨by omega, fun h => by omega⟩
          | false =>
            have hq : q = .character := hq.resolve_right (by simp [hqm])
            subst hq
            rw [TermSignature.erase_cons_unmarked rfl] at he ⊢
            obtain ⟨hle, hchain⟩ := ih rest'.length (by rw [← hk, List.length_cons, List.length_cons]; omega) hf' he.of_cons.of_cons hw rfl
            simp only [List.length_append, List.length_singleton] at hle hchain
            have hcount : (InferenceTypePart.string :: .character :: rest').count .string =
                rest'.count .string + 1 := by simp
            rw [hcount, List.length_cons, List.length_cons]
            refine ⟨by omega, fun h => List.isChain_cons_cons.mpr ⟨fun _ => rfl, ?_⟩⟩
            exact isChain_cons_of_ne nofun (hchain (by omega))
        case neg =>
          cases hc : p.concrete_part with
          | none =>
            have : write_parts (p :: rest) w = none := by
              cases p <;> simp_all [write_parts, InferenceTypePart.concrete_part,
                InferenceTypePart.is_marker]
            rw [this] at hw
            cases hw
          | some c =>
            rw [write_parts_part hs hc] at hw
            rw [TermSignature.erase_cons_unmarked hm] at he ⊢
            obtain ⟨hle, hchain⟩ := ih rest.length (by simp [← hk]) hfrest he.of_cons hw rfl
            simp only [List.length_append, List.length_singleton] at hle hchain
            rw [List.count_cons_of_ne (Ne.symm (fun h => hs h.symm)), List.length_cons]
            exact ⟨by omega, fun h => isChain_cons_of_ne hs (hchain (by omega))⟩

-- The inference type has one part more for each string and each message.
theorem determined_length {c : ConcreteType} {e : List InferenceTypePart}
    (h : determine_inference_type_from_concrete_type c = some e) :
    e.length = c.length + e.count .string + e.count .message := by
  induction c generalizing e with
  | nil =>
    cases h
    rfl
  | cons p c ih =>
    simp only [determine_inference_type_from_concrete_type, Option.bind_eq_bind,
      Option.bind_eq_some_iff] at h
    obtain ⟨parts, hparts, rest, hrest, h⟩ := h
    cases h
    have hlen := ih hrest
    cases p <;> cases hparts <;> simp <;> omega

-- The type appends itself, as one concrete type.
def Writes (t : InferenceType) (c : ConcreteType) : Prop :=
  t.Denotes c ∧ ∀ concrete_type, t.write_concrete_type concrete_type = some (concrete_type ++ c)

theorem writes_iff (h : t.FullyInferred) : (∃ c, t.Writes c) ↔ Convertible t.parts := by
  constructor
  case mpr =>
    intro hconv
    obtain ⟨c, hf, hd, hw⟩ := write_parts_exact h.tree h.concrete h.elements hconv
    exact ⟨c, ⟨hf, hd⟩, hw⟩
  case mp =>
    rintro ⟨c, hd, hw⟩
    obtain ⟨hle, hchain⟩ := le_written_length h.tree h.elements (hw [])
    have hlen := determined_length hd.parts
    have hstr : (signature.erase t.parts).count .string = t.parts.count .string :=
      List.count_filter rfl
    have hmsg : (signature.erase t.parts).count .message = t.parts.count .message :=
      List.count_filter rfl
    rw [hstr, hmsg] at hlen
    simp only [List.length_nil, List.nil_append] at hle hchain
    constructor
    case message => exact List.count_eq_zero.mp (by omega)
    case string  => exact hchain (by omega)

end InferenceType

open InferenceType (Writes Convertible FullyInferred)

variable {ts : List InferenceType} {first : ConcreteTypePart}

theorem write_arguments_eq {cs : List ConcreteType} (h : List.Forall₂ Writes ts cs)
    (hd : ∀ t ∈ ts, t.is_done = true) (i : Nat) (w : ConcreteType) :
    write_arguments ts i w = some (.ok (w ++ cs.flatten)) := by
  induction h generalizing i w with
  | nil => simp [write_arguments]
  | cons hw _ ih =>
    obtain ⟨hdone, hd⟩ := List.forall_mem_cons.mp hd
    simp [write_arguments, hdone, hw.right, ih hd]

theorem exists_writes_iff : (∃ cs, List.Forall₂ Writes ts cs) ↔ ∀ t ∈ ts, ∃ c, t.Writes c := by
  induction ts with
  | nil => simp
  | cons t ts ih =>
    rw [List.forall_mem_cons, ← ih]
    simp only [List.forall₂_cons_left_iff]
    constructor
    case mp  =>
      rintro ⟨_, c, cs, hc, hcs, _⟩
      exact ⟨⟨c, hc⟩, ⟨cs, hcs⟩⟩
    case mpr =>
      rintro ⟨⟨c, hc⟩, ⟨cs, hcs⟩⟩
      exact ⟨_, c, cs, hc, hcs, rfl⟩

theorem forest_of_writes {cs : List ConcreteType} (h : List.Forall₂ Writes ts cs) :
    ∀ c ∈ cs, ConcreteType.Forest 1 c := by
  induction h with
  | nil          => exact nofun
  | cons hw _ ih => exact List.forall_mem_cons.mpr ⟨hw.left.tree, ih⟩

-- Every argument is written as one concrete type, which is the argument itself, and the iterator
-- yields the arguments in their order.
def KeepsArguments (first : ConcreteTypePart) (ts : List InferenceType) : Prop :=
  ∃ concrete cs, inference_type_to_concrete_type ts first = some (.ok concrete) ∧
    List.Forall₂ Writes ts cs ∧ concrete.embedded_iter = cs

theorem keeps_arguments_iff (hfirst : first.num_embedded = ts.length)
    (h : ∀ t ∈ ts, t.FullyInferred) :
    KeepsArguments first ts ↔ ∀ t ∈ ts, Convertible t.parts := by
  have hiff : (∃ cs, List.Forall₂ Writes ts cs) ↔ ∀ t ∈ ts, Convertible t.parts :=
    exists_writes_iff.trans (forall₂_congr fun t ht => InferenceType.writes_iff (h t ht))
  rw [← hiff]
  constructor
  case mp =>
    rintro ⟨_, cs, _, hw, _⟩
    exact ⟨cs, hw⟩
  case mpr =>
    rintro ⟨cs, hw⟩
    have hrun := write_arguments_eq hw (fun t ht => (h t ht).done) 0 [first]
    refine ⟨_, cs, hrun, hw, ?_⟩
    rw [List.singleton_append, ConcreteType.embedded_iter, hfirst, hw.length_eq]
    exact ConcreteType.subtrees_flatten (forest_of_writes hw)

-- Types, and the arguments of instantiations, are converted to themselves if there is no message in
-- them, and no marker between a string and its element.
theorem conversion_iff {t : InferenceType} (h : t.FullyInferred) {first : ConcreteTypePart}
    {ts : List InferenceType} (hfirst : first.num_embedded = ts.length)
    (hts : ∀ t ∈ ts, t.FullyInferred) :
    ((∃ c, t.Writes c) ↔ Convertible t.parts) ∧
      (KeepsArguments first ts ↔ ∀ t ∈ ts, Convertible t.parts) :=
  ⟨InferenceType.writes_iff h, keeps_arguments_iff hfirst hts⟩

-- An array of strings is one argument.
theorem string_array_kept :
    let t : InferenceType := ⟨false, true, [.array, .string, .character]⟩
    (∃ c, t.Writes c) ∧ KeepsArguments (.function 0 1) [t] := by
  intro t
  have ht : t.FullyInferred := ⟨.cons (.cons (.cons .nil)), rfl, by decide, by decide⟩
  have hconv : Convertible t.parts := ⟨by decide, by decide⟩
  have hfirst : (ConcreteTypePart.function 0 1).num_embedded = [t].length := rfl
  obtain ⟨hwrites, hkeeps⟩ := conversion_iff ht hfirst (by simp [ht])
  exact ⟨hwrites.mpr hconv, hkeeps.mpr (by simp [hconv])⟩

-- The element of a message is written behind it, and is taken for the next argument.
theorem message_not_kept :
    let t : InferenceType := ⟨false, true, [.message, .uint8]⟩
    let t' : InferenceType := ⟨false, true, [.sint32]⟩
    t.FullyInferred ∧ t.write_concrete_type [] = some [.message, .uint8] ∧ (¬∃ c, t.Writes c) ∧
    inference_type_to_concrete_type [t, t'] (.«instance» 0 2) =
      some (.ok [.«instance» 0 2, .message, .uint8, .sint32]) ∧
    ConcreteType.embedded_iter [.«instance» 0 2, .message, .uint8, .sint32] =
      [[.message], [.uint8]] := by
  intro t t'
  have ht : t.FullyInferred := ⟨.cons (.cons .nil), rfl, by decide, by decide⟩
  refine ⟨ht, rfl, ?_, rfl, rfl⟩
  rw [InferenceType.writes_iff ht]
  exact fun h => h.message (.head _)

end Reowolf.Types
