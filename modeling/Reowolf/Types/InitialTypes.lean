import Reowolf.Types.SignatureInference

namespace Reowolf.Types

open InferenceTypePart (signature)
open InferenceType
open Reowolf.Parser (ParserTypeVariant)

-- A part of a type that a procedure may have as a polymorphic argument.
def ConcreteTypePart.Inferable (heap : Heap) : ConcreteTypePart → Prop
  | .«instance» id _ => ∃ definition, heap.definitions[id]? = some definition
  | .function .. | .component .. => False
  | _ => True

structure ConcreteType.Inferable (heap : Heap) (c : ConcreteType) : Prop where
  tree  : ConcreteType.Forest 1 c
  parts : ∀ part ∈ c, part.Inferable heap

-- An element of a type as it is written in the source or in the type of a builtin function, where the
-- given number of polymorphic variables are in scope.
def Writable (heap : Heap) (num_poly_vars : Nat) : ParserTypeVariant → Prop
  | .definition id _ => ∃ definition, heap.definitions[id]? = some definition
  | .polymorphicArgument _ idx => idx < num_poly_vars
  | .integerLiteral => False
  | _ => True

structure Written (heap : Heap) (num_poly_vars n : Nat) (elements : ParserType) : Prop where
  tree     : PrefixTerms.Forest ParserTypeVariant.num_embedded n elements
  elements : ∀ element ∈ elements, Writable heap num_poly_vars element

-- An element that leaves something to infer, without a polymorphic variable.
def LeavesOpen : ParserTypeVariant → Prop
  | .inputOrOutput | .arrayLike | .integerLike | .inferred => True
  | _ => False

-- A type in which all is known, or in which a polymorphic variable is mentioned.
def Settled (elements : ParserType) : Prop :=
  (∃ id idx, .polymorphicArgument id idx ∈ elements) ∨ ∀ element ∈ elements, ¬LeavesOpen element

variable {heap : Heap} {n k : Nat} {poly_vars : List ConcreteType} {elements : ParserType}
variable {parts l : List InferenceTypePart} {ss : List (InferenceTypePart × List InferenceTypePart)}

theorem known_of_ne {p : InferenceTypePart} (h : ∀ id num, p ≠ .«instance» id num) : p.Known heap :=
  fun id num he => absurd he (h id num)

-- The parts of a concrete type are those of a type in which all is known.
structure Determined (heap : Heap) (n : Nat) (parts : List InferenceTypePart) : Prop where
  tree     : signature.Forest n parts
  known    : ∀ p ∈ parts, p.Known heap
  unmarked : signature.Unmarked parts
  concrete : ∀ p ∈ parts, p.is_concrete = true

namespace Determined

theorem nil : Determined heap 0 [] where
  tree     := .nil
  known    := fun _ h => absurd h List.not_mem_nil
  unmarked := fun _ h => absurd h List.not_mem_nil
  concrete := fun _ h => absurd h List.not_mem_nil

theorem cons {p : InferenceTypePart} (hk : p.Known heap) (hm : p.is_marker = false)
    (hc : p.is_concrete = true) (h : Determined heap (n + p.arity) parts) :
    Determined heap (n + 1) (p :: parts) where
  tree     := .cons h.tree
  known    := List.forall_mem_cons.mpr ⟨hk, h.known⟩
  unmarked := TermSignature.Unmarked.cons.mpr ⟨hm, h.unmarked⟩
  concrete := List.forall_mem_cons.mpr ⟨hc, h.concrete⟩

end Determined

theorem determine_concrete_type {c : ConcreteType} (ht : ConcreteType.Forest n c)
    (hc : ∀ part ∈ c, part.Inferable heap) : ∃ parts,
      determine_inference_type_from_concrete_type c = some parts ∧ Determined heap n parts := by
  induction ht with
  | nil => exact ⟨[], rfl, .nil⟩
  | @cons n part c _ ih =>
    obtain ⟨hpart, hc⟩ := List.forall_mem_cons.mp hc
    obtain ⟨parts, hparts, hd⟩ := ih hc
    simp only [determine_inference_type_from_concrete_type, hparts]
    cases part with
    | function | component => cases hpart
    | «instance» id num =>
      refine ⟨_, rfl, .cons (fun id' num' he => ?_) rfl rfl ?_⟩
      · cases he
        exact hpart
      · simpa [InferenceTypePart.arity, InferenceTypePart.depth_change, ConcreteTypePart.num_embedded]
          using hd
    | string | message =>
      refine ⟨_, rfl, .cons (known_of_ne (by simp)) rfl rfl ?_⟩
      exact .cons (known_of_ne (by simp)) rfl rfl hd
    | _ => exact ⟨_, rfl, .cons (known_of_ne (by simp)) rfl rfl hd⟩

-- The parts that the elements of a type come to. The markers are those of the variables in scope, and there
-- is something to infer where an element leaves it open or has a marker.
structure Initial (heap : Heap) (num_poly_vars n : Nat) (r : InferredElements) : Prop where
  tree     : signature.Forest n r.parts
  known    : ∀ p ∈ r.parts, p.Known heap
  markers  : ∃ ss, signature.Sections r.parts ss ∧ (∀ s ∈ ss, s.1.marker_idx < num_poly_vars ∧
    s.2 = [.unknown]) ∧ (ss = [] ↔ r.has_markers = false)
  inferred : r.has_inferred = false ↔ ∀ p ∈ r.parts, p.is_concrete = true

namespace Initial

variable {num_poly_vars : Nat} {r r' : InferredElements}

theorem nil : Initial heap num_poly_vars 0 ⟨[], false, false⟩ where
  tree     := .nil
  known    := fun _ h => absurd h List.not_mem_nil
  markers  := ⟨[], .nil, fun _ h => absurd h List.not_mem_nil, iff_of_true rfl rfl⟩
  inferred := iff_of_true rfl fun _ h => absurd h List.not_mem_nil

-- The parts of one element in front of those of others.
theorem append (h : Initial heap num_poly_vars 1 r)
    (h' : Initial heap num_poly_vars n r') : Initial heap num_poly_vars (1 + n)
      ⟨r.parts ++ r'.parts, r.has_inferred || r'.has_inferred, r.has_markers || r'.has_markers⟩ where
  tree     := h.tree.append h'.tree
  known    := List.forall_mem_append.mpr ⟨h.known, h'.known⟩
  markers  := by
    obtain ⟨ss, hs, hb, hm⟩ := h.markers
    obtain ⟨ss', hs', hb', hm'⟩ := h'.markers
    refine ⟨ss ++ ss', hs.append hs', List.forall_mem_append.mpr ⟨hb, hb'⟩, ?_⟩
    rw [List.append_eq_nil_iff, hm, hm', Bool.or_eq_false_iff]
  inferred := by rw [Bool.or_eq_false_iff, h.inferred, h'.inferred, List.forall_mem_append]

theorem cons {p : InferenceTypePart} (hk : p.Known heap) (hm : p.is_marker = false) {inferred : Bool}
    (hi : inferred = !p.is_concrete) (h : Initial heap num_poly_vars (n + p.arity) r) :
    Initial heap num_poly_vars (n + 1) ⟨p :: r.parts, inferred || r.has_inferred, r.has_markers⟩ where
  tree     := .cons h.tree
  known    := List.forall_mem_cons.mpr ⟨hk, h.known⟩
  markers  := by
    obtain ⟨ss, hs, hb, hm'⟩ := h.markers
    exact ⟨ss, .plain hm hs, hb, hm'⟩
  inferred := by
    rw [Bool.or_eq_false_iff, h.inferred, List.forall_mem_cons, hi, Bool.not_eq_false']

end Initial

theorem Determined.initial {num_poly_vars : Nat} (h : Determined heap n parts) :
    Initial heap num_poly_vars n ⟨parts, false, false⟩ where
  tree     := h.tree
  known    := h.known
  markers  := ⟨[], .of_unmarked h.unmarked, fun _ h => absurd h List.not_mem_nil, iff_of_true rfl rfl⟩
  inferred := iff_of_true rfl h.concrete

theorem Initial.variable {num_poly_vars idx : Nat} (h : idx < num_poly_vars) :
    Initial heap num_poly_vars 1 ⟨[.marker idx, .unknown], true, true⟩ where
  tree     := .cons (.cons .nil)
  known    := by
    simp only [List.forall_mem_cons, List.not_mem_nil, false_implies, implies_true, and_true]
    exact ⟨known_of_ne (by simp), known_of_ne (by simp)⟩
  markers  := by
    refine ⟨[(.marker idx, [InferenceTypePart.unknown])], ?_, ?_, by simp⟩
    · exact .marked (t := [InferenceTypePart.unknown]) rfl (.cons .nil) (by decide) .nil
    · simpa [InferenceTypePart.marker_idx] using h
  inferred := by simp [InferenceTypePart.is_concrete]

-- What the flags say of the elements. If the variables are known then there are no markers.
structure InitialOf (heap : Heap) (num_poly_vars : Nat) (poly_known : Bool) (n : Nat)
    (elements : ParserType) (r : InferredElements) : Prop extends Initial heap num_poly_vars n r where
  unmarked : poly_known = true → r.has_markers = false
  marked   : poly_known = false → ∀ id idx, .polymorphicArgument id idx ∈ elements → r.has_markers = true
  settled  : (∀ element ∈ elements, ¬LeavesOpen element) →
    r.has_markers = true ∨ r.has_inferred = false

namespace InitialOf

variable {num_poly_vars m : Nat} {poly_known : Bool} {r r' : InferredElements}
variable {element : ParserTypeVariant}

-- Another element in front that is not a variable.
theorem cons (h : InitialOf heap num_poly_vars poly_known n elements r)
    (hi : Initial heap num_poly_vars m r') (hvar : ∀ id idx, element ≠ .polymorphicArgument id idx)
    (hm : r'.has_markers = r.has_markers)
    (ho : ¬LeavesOpen element → r'.has_inferred = r.has_inferred) :
    InitialOf heap num_poly_vars poly_known m (element :: elements) r' where
  toInitial := hi
  unmarked hk := hm.trans (h.unmarked hk)
  marked hk id idx hmem := by
    obtain he | hmem := List.mem_cons.mp hmem
    · exact absurd he.symm (hvar id idx)
    · exact hm.trans (h.marked hk id idx hmem)
  settled hs := by
    obtain ⟨he, hs⟩ := List.forall_mem_cons.mp hs
    rw [hm, ho he]
    exact h.settled hs

-- A variable in front that is to be inferred.
theorem cons_variable {id idx : Nat} (h : InitialOf heap num_poly_vars false n elements r)
    (hidx : idx < num_poly_vars) : InitialOf heap num_poly_vars false (1 + n)
      (.polymorphicArgument id idx :: elements) ⟨[.marker idx, .unknown] ++ r.parts, true, true⟩ where
  toInitial := (Initial.variable hidx).append h.toInitial
  unmarked hk := absurd hk Bool.false_ne_true
  marked _ _ _ _ := rfl
  settled _ := .inl rfl

-- A variable in front that is known.
theorem cons_determined {id idx : Nat} (h : InitialOf heap num_poly_vars true n elements r)
    (hd : Determined heap 1 parts) : InitialOf heap num_poly_vars true (1 + n)
      (.polymorphicArgument id idx :: elements) ⟨parts ++ r.parts, r.has_inferred, r.has_markers⟩ where
  toInitial := by simpa using (hd.initial ).append h.toInitial
  unmarked hk := h.unmarked hk
  marked hk := absurd hk.symm Bool.false_ne_true
  settled hs := h.settled (List.forall_mem_cons.mp hs).right

end InitialOf

-- The parts of a type that is written in the source.
theorem determine_elements_initial {num_poly_vars : Nat} (poly_known : Bool)
    (hp : ∀ c ∈ poly_vars, c.Inferable heap)
    (hn : poly_known = true → num_poly_vars ≤ poly_vars.length)
    (h : Written heap num_poly_vars n elements) : ∃ r,
      determine_elements poly_vars poly_known elements = some r ∧
      InitialOf heap num_poly_vars poly_known n elements r := by
  obtain ⟨ht, he⟩ := h
  induction ht with
  | nil =>
    refine ⟨_, rfl, .nil, fun _ => rfl, fun _ _ _ h => absurd h List.not_mem_nil, fun _ => .inr rfl⟩
  | @cons n element elements _ ih =>
    obtain ⟨hwritable, he⟩ := List.forall_mem_cons.mp he
    obtain ⟨r, hr, h⟩ := ih he
    simp only [determine_elements, hr, Option.bind_eq_bind, Option.bind_some]
    cases element with
    | polymorphicArgument id idx =>
      rw [Nat.add_comm n 1]
      cases poly_known with
      | false => exact ⟨_, rfl, h.cons_variable hwritable⟩
      | true =>
        have hc := List.getElem?_eq_getElem (Nat.lt_of_lt_of_le hwritable (hn rfl))
        obtain ⟨ht, hc'⟩ := hp _ (List.mem_of_getElem? hc)
        obtain ⟨parts, hparts, hd⟩ := determine_concrete_type ht hc'
        simp only [determine_element, if_true, hc, Option.bind_eq_bind, Option.bind_some, hparts]
        exact ⟨_, rfl, h.cons_determined hd⟩
    | integerLiteral => cases hwritable
    | definition id num =>
      have harity : (InferenceTypePart.«instance» id num).arity = num := by
        simp [InferenceTypePart.arity, InferenceTypePart.depth_change]
      refine ⟨_, rfl, h.cons (.cons (fun id' num' he => ?_) rfl rfl ?_) (by simp) rfl fun _ => rfl⟩
      · cases he
        exact hwritable
      · rw [harity]
        exact h.toInitial
    | string =>
      have hd : Determined heap 1 [.string, .character] :=
        .cons (known_of_ne (by simp)) rfl rfl (.cons (known_of_ne (by simp)) rfl rfl .nil)
      have hi := hd.initial.append h.toInitial
      rw [Nat.add_comm 1] at hi
      exact ⟨_, rfl, h.cons hi (by simp) (Bool.false_or _) fun _ => Bool.false_or _⟩
    | message =>
      have hd : Determined heap 1 [.message, .uint8] :=
        .cons (known_of_ne (by simp)) rfl rfl (.cons (known_of_ne (by simp)) rfl rfl .nil)
      have hi := hd.initial.append h.toInitial
      rw [Nat.add_comm 1] at hi
      exact ⟨_, rfl, h.cons hi (by simp) (Bool.false_or _) fun _ => Bool.false_or _⟩
    | inputOrOutput | arrayLike | integerLike | inferred =>
      refine ⟨_, rfl, h.cons (.cons ?_ rfl rfl h.toInitial) (by simp) rfl fun ho => absurd trivial ho⟩
      exact known_of_ne (by simp)
    | _ =>
      refine ⟨_, rfl, h.cons (.cons ?_ rfl rfl h.toInitial) (by simp) rfl fun _ => rfl⟩
      exact known_of_ne (by simp)

theorem mapM_spec {α β : Type} {f : α → Option β} {P : β → Prop} {l : List α}
    (h : ∀ a ∈ l, ∃ b, f a = some b ∧ P b) :
    ∃ bs, l.mapM f = some bs ∧ bs.length = l.length ∧ ∀ b ∈ bs, P b := by
  induction l with
  | nil => exact ⟨[], rfl, rfl, fun _ h => absurd h List.not_mem_nil⟩
  | cons a l ih =>
    obtain ⟨⟨b, hb, hp⟩, h⟩ := List.forall_mem_cons.mp h
    obtain ⟨bs, hbs, hlen, hps⟩ := ih h
    refine ⟨b :: bs, ?_, congrArg Nat.succ hlen, List.forall_mem_cons.mpr ⟨hp, hps⟩⟩
    simp [hb, hbs]

-- A type in which the polymorphic variables are known has no markers.
theorem determine_known (hp : ∀ c ∈ poly_vars, c.Inferable heap)
    (h : Written heap poly_vars.length 1 elements) : ∃ t,
      determine_inference_type_from_parser_type_elements poly_vars elements true = some t ∧
      t.Proper heap := by
  obtain ⟨r, hr, hi⟩ := determine_elements_initial true hp (fun _ => Nat.le_refl _) h
  obtain ⟨ss, hss, _, hm⟩ := hi.markers
  refine ⟨_, by rw [determine_inference_type_from_parser_type_elements, hr]; rfl, ?_⟩
  refine ⟨⟨⟨hi.tree, ?_⟩, hi.known⟩, ?_⟩
  · rw [Bool.eq_iff_iff, Bool.not_eq_true', hi.inferred, List.all_eq_true]
  · exact (hm.mpr (hi.unmarked rfl) ▸ hss).unmarked

-- A type in the signature of a definition. Behind its markers nothing is known.
structure Unsettled (heap : Heap) (num_poly_vars : Nat) (t : InferenceType) : Prop extends
    t.Formed heap where
  sections : ∃ ss, signature.Sections t.parts ss ∧
    ∀ s ∈ ss, s.1.marker_idx < num_poly_vars ∧ s.2 = [.unknown]

theorem determine_unknown {num_poly_vars : Nat} (hp : ∀ c ∈ poly_vars, c.Inferable heap)
    (h : Written heap num_poly_vars 1 elements) : ∃ t,
      determine_inference_type_from_parser_type_elements poly_vars elements false = some t ∧
      Unsettled heap num_poly_vars t ∧
      (Settled elements → t.has_marker = true ∨ t.is_done = true) := by
  obtain ⟨r, hr, hi⟩ := determine_elements_initial false hp (fun h => absurd h Bool.false_ne_true) h
  obtain ⟨ss, hss, hb, _⟩ := hi.markers
  refine ⟨_, by rw [determine_inference_type_from_parser_type_elements, hr]; rfl,
    ⟨⟨⟨hi.tree, ?_⟩, hi.known⟩, ss, hss, hb⟩, fun hs => ?_⟩
  · rw [Bool.eq_iff_iff, Bool.not_eq_true', hi.inferred, List.all_eq_true]
  · obtain ⟨id, idx, hs⟩ | hs := hs
    · exact .inl (hi.marked rfl id idx hs)
    · exact (hi.settled hs).imp_right fun h => by simp [h]

-- Whatever is known of the variables, it refines what is behind the markers.
theorem Unsettled.agrees {types : List InferenceType} {t : InferenceType}
    (h : Unsettled heap types.length t) (hf : ∀ v ∈ types, v.Formed heap) :
    ∃ ss, Agrees types t ss := by
  obtain ⟨ss, hss, hb⟩ := h.sections
  refine ⟨ss, ⟨hss, fun s hs => (hb s hs).left⟩, fun s hs v hv => ?_⟩
  rw [(hb s hs).right]
  have htree := (hf v (List.mem_of_getElem? hv)).tree.erase
  have hfill := TermSignature.Refines.fill htree TermSignature.erase_unmarked .nil
  rwa [List.append_nil] at hfill

section Arguments

variable {α : Type} {f : α → List InferenceTypePart} {as : List α} {start : Nat}

-- Types one behind the other, each with its marker.
def marked_arguments (f : α → List InferenceTypePart) (as : List α) (start : Nat) :
    List InferenceTypePart :=
  (as.zipIdx start).flatMap fun (a, idx) => .marker idx :: f a

theorem marked_arguments_cons (a : α) :
    marked_arguments f (a :: as) start = .marker start :: (f a ++ marked_arguments f as (start + 1)) := by
  simp [marked_arguments]

theorem forest_marked_arguments (h : ∀ a ∈ as, signature.Forest 1 (f a)) :
    signature.Forest as.length (marked_arguments f as start) := by
  induction as generalizing start with
  | nil => exact .nil
  | cons a as ih =>
    obtain ⟨ha, h⟩ := List.forall_mem_cons.mp h
    rw [marked_arguments_cons, List.length_cons]
    refine .cons ?_
    have hrest : signature.Forest as.length (marked_arguments f as (start + 1)) := ih h
    have harg := ha.append hrest
    rw [Nat.add_comm] at harg
    exact harg

theorem sections_marked_arguments (h : ∀ a ∈ as, signature.Forest 1 (f a) ∧ signature.Unmarked (f a)) :
    signature.Sections (marked_arguments f as start)
      ((as.zipIdx start).map fun a => (.marker a.2, f a.1)) := by
  induction as generalizing start with
  | nil => exact .nil
  | cons a as ih =>
    obtain ⟨ha, h⟩ := List.forall_mem_cons.mp h
    rw [marked_arguments_cons, List.zipIdx_cons, List.map_cons]
    exact .marked rfl ha.left ha.right (ih h)

theorem mem_marked_arguments {p : InferenceTypePart} (h : p ∈ marked_arguments f as start) :
    p.is_marker = true ∨ ∃ a ∈ as, p ∈ f a := by
  induction as generalizing start with
  | nil => cases h
  | cons a as ih =>
    rw [marked_arguments_cons, List.mem_cons, List.mem_append] at h
    obtain h | h | h := h
    · exact .inl (h ▸ rfl)
    · exact .inr ⟨a, List.mem_cons_self, h⟩
    · obtain h | ⟨b, hb, h⟩ := ih h
      · exact .inl h
      · exact .inr ⟨b, List.mem_cons_of_mem _ hb, h⟩

theorem all_marked_arguments : (marked_arguments f as start).all (·.is_concrete) =
    as.all fun a => (f a).all (·.is_concrete) := by
  induction as generalizing start with
  | nil => rfl
  | cons a as ih =>
    rw [marked_arguments_cons, List.all_cons, List.all_append, ih, List.all_cons]
    rfl

-- The instance of a definition with these types as its arguments.
theorem formed_instance {id : DefinitionId} {t : InferenceType} (f : α → List InferenceTypePart) (as : List α)
    (hd : ∃ definition, heap.definitions[id]? = some definition)
    (hf : ∀ a ∈ as, signature.Forest 1 (f a)) (hk : ∀ a ∈ as, ∀ p ∈ f a, p.Known heap)
    (ht : t.parts = .«instance» id as.length :: marked_arguments f as 0)
    (hdone : t.is_done = as.all fun a => (f a).all (·.is_concrete)) : t.Formed heap := by
  have harity : signature.arity (.«instance» id as.length) = as.length := by
    simp [signature, InferenceTypePart.arity, InferenceTypePart.depth_change]
  refine ⟨⟨?_, ?_⟩, ?_⟩
  · rw [ht]
    refine .cons ?_
    rw [harity, Nat.zero_add]
    exact forest_marked_arguments hf
  · rw [hdone, ht, List.all_cons, all_marked_arguments]
    rfl
  · rw [ht]
    refine List.forall_mem_cons.mpr ⟨fun id' num he => ?_, fun p hp => ?_⟩
    · cases he
      exact hd
    · obtain hm | ⟨a, ha, hp⟩ := mem_marked_arguments hp
      · exact known_of_ne fun id num he => by rw [he] at hm; cases hm
      · exact hk a ha p hp

-- Arguments that are all the same.
theorem marked_arguments_const (l : List InferenceTypePart) :
    marked_arguments (fun _ => l) as start =
      (List.range' start as.length).flatMap fun idx => .marker idx :: l := by
  induction as generalizing start with
  | nil => rfl
  | cons a as ih =>
    rw [marked_arguments_cons, ih, List.length_cons, List.range'_succ, List.flatMap_cons,
      List.cons_append]

end Arguments

-- The types in the signature of a definition.
def Definition.signature_types (definition : Definition) : List ParserType :=
  match definition.variant with
  | .enum _ => []
  | .union variants => variants.flatMap UnionVariantDefinition.value
  | .struct fields => fields.map StructFieldDefinition.parser_type
  | .function return_types parameters _ => return_types ++ parameters.map Parameter.parser_type
  | .component parameters => parameters.map Parameter.parser_type

-- The definitions as the parser leaves them. Among them are the builtin functions, and of the types in
-- their signatures only that of the length for `create` leaves something open without mentioning a
-- polymorphic variable.
structure Heap.WellWritten (heap : Heap) : Prop where
  written : ∀ (id : DefinitionId) (definition : Definition), heap.definitions[id]? = some definition →
    ∀ elements ∈ definition.signature_types, Written heap definition.poly_vars.length 1 elements
  settled : ∀ (id : DefinitionId) (definition : Definition), heap.definitions[id]? = some definition →
    definition ≠ builtin_create id → ∀ elements ∈ definition.signature_types, Settled elements

-- The expressions that have extra data, as the linker leaves them.
def PolymorphicExpression.Linked (heap : Heap) (num_poly_vars : Nat) : PolymorphicExpression → Prop
  | call id poly_args arguments => ∃ definition parameters,
    heap.definitions[id]? = some definition ∧ PolyArgs definition poly_args ∧
    (definition.variant = .component parameters ∨
      ∃ returned builtin, definition.variant = .function [returned] parameters builtin) ∧
    parameters.length = arguments.length
  | struct_literal id poly_args fields => ∃ definition def_fields,
    heap.definitions[id]? = some definition ∧ PolyArgs definition poly_args ∧
    definition.variant = .struct def_fields ∧ ∀ field ∈ fields, field.1 < def_fields.length
  | enum_literal id poly_args => ∃ definition,
    heap.definitions[id]? = some definition ∧ PolyArgs definition poly_args
  | union_literal id poly_args variant_idx values => ∃ definition variants variant,
    heap.definitions[id]? = some definition ∧ PolyArgs definition poly_args ∧
    definition.variant = .union variants ∧ variants[variant_idx]? = some variant ∧
    variant.value.length = values.length
  | select _ _ => True
where
  PolyArgs (definition : Definition) (poly_args : List ParserType) : Prop :=
    poly_args.length = definition.poly_vars.length ∧
      ∀ elements ∈ poly_args, Written heap num_poly_vars 1 elements

-- A call of the builtin function that makes arrays.
def PolymorphicExpression.CallsCreate (heap : Heap) : PolymorphicExpression → Prop
  | call id _ _ => heap.definitions[id]? = some (builtin_create id)
  | _ => False

-- The data with which the inference of an expression starts.
structure ExtraData.Begins (heap : Heap) (expr : PolymorphicExpression) (d : ExtraData) : Prop where
  consistent : d.Consistent heap
  embedded   : d.embedded.length = expr.expr_args.length
  settled    : ¬expr.CallsCreate heap → ∀ idx t, d.signature_type idx = some t →
    t.has_marker = true ∨ t.is_done = true

section Begin

variable {id : DefinitionId} {expr_id : Nat} {poly_args : List ParserType} {definition : Definition}

theorem mapM_poly_args (hp : ∀ c ∈ poly_vars, c.Inferable heap)
    (h : ∀ elements ∈ poly_args, Written heap poly_vars.length 1 elements) : ∃ types,
      poly_args.mapM (determine_inference_type_from_parser_type_elements poly_vars · true) = some types ∧
      types.length = poly_args.length ∧ ∀ t ∈ types, t.Proper heap :=
  mapM_spec fun elements he => determine_known hp (h elements he)

-- Types of which each belongs to the variables.
theorem consistent_of_unsettled {types embedded : List InferenceType} {returned : InferenceType}
    (hd : heap.definitions[id]? = some definition) (hlen : types.length = definition.poly_vars.length)
    (hf : ∀ v ∈ types, v.Formed heap)
    (he : ∀ t ∈ embedded, Unsettled heap types.length t)
    (hr : returned.Formed heap ∧ ∃ ss, Agrees types returned ss) :
    ExtraData.Consistent heap ⟨expr_id, id, types, embedded, returned⟩ where
  named      := ⟨definition, hd, hlen.symm⟩
  poly_vars  := hf
  signatures idx t ht := by
    cases idx with
    | returned =>
      cases ht
      exact hr
    | embedded i =>
      have ht := he t (List.mem_of_getElem? ht)
      exact ⟨ht.toFormed, ht.agrees hf⟩

-- The instance with the types that belong to the variables as its arguments.
theorem agrees_arguments {types : List InferenceType} {t : InferenceType} {α : Type} {num : Nat}
    (f : α → List InferenceTypePart) (as : List α)
    (ht : t.parts = .«instance» id num :: marked_arguments f as 0)
    (ha : ∀ a ∈ as, signature.Forest 1 (f a) ∧ signature.Unmarked (f a))
    (hv : ∀ (idx : Nat) (a : α), as[idx]? = some a → ∃ v : InferenceType, types[idx]? = some v ∧
      signature.Refines (f a) (signature.erase v.parts)) : ∃ ss, Agrees types t ss := by
  refine ⟨_, ⟨by rw [ht]; exact .plain rfl (sections_marked_arguments ha), fun s hs => ?_⟩,
    fun s hs v hsv => ?_⟩
  all_goals
    obtain ⟨⟨a, idx⟩, hm, he⟩ := List.mem_map.mp hs
    subst he
    obtain ⟨v', hv', hr⟩ := hv idx a (List.mk_mem_zipIdx_iff_getElem?.mp hm)
  · exact (List.getElem?_eq_some_iff.mp hv').1
  · cases hv'.symm.trans hsv
    exact hr

-- The type of a literal, with the arguments that are known of it.
theorem literal_type_spec {types : List InferenceType}
    (hd : heap.definitions[id]? = some definition) (h : ∀ t ∈ types, t.Proper heap) :
    (literal_type id types).Formed heap ∧ (∃ ss, Agrees types (literal_type id types) ss) ∧
      ((literal_type id types).has_marker = true ∨ (literal_type id types).is_done = true) := by
  refine ⟨formed_instance InferenceType.parts types ⟨definition, hd⟩
    (fun t ht => (h t ht).tree) (fun t ht => (h t ht).known) rfl ?_,
    agrees_arguments InferenceType.parts types rfl
    (fun t ht => ⟨(h t ht).tree, (h t ht).unmarked⟩) (fun idx t ht => ⟨t, ht, ?_⟩), ?_⟩
  · simp only [literal_type]
    rw [Bool.eq_iff_iff, List.all_eq_true, List.all_eq_true]
    exact forall₂_congr fun t ht => by rw [(h t ht).done]
  · rw [(h t (List.mem_of_getElem? ht)).erase_eq]
    exact .refl _
  · cases types with
    | nil       => exact .inr rfl
    | cons t ts => exact .inl rfl

theorem determine_signature (hp : ∀ c ∈ poly_vars, c.Inferable heap) (hw : heap.WellWritten)
    (hd : heap.definitions[id]? = some definition) (hm : elements ∈ definition.signature_types) : ∃ t,
      determine_inference_type_from_parser_type_elements poly_vars elements false = some t ∧
      Unsettled heap definition.poly_vars.length t ∧
      (definition ≠ builtin_create id → t.has_marker = true ∨ t.is_done = true) := by
  obtain ⟨t, ht, hu, hs⟩ := determine_unknown hp (hw.written id definition hd elements hm)
  exact ⟨t, ht, hu, fun hc => hs (hw.settled id definition hd hc elements hm)⟩

-- The data of a selection, once the struct is known.
theorem begins_select {subject field_idx : Nat} {field_name : Identifier}
    {fields : List StructFieldDefinition} (hp : ∀ c ∈ poly_vars, c.Inferable heap)
    (hw : heap.WellWritten) (hd : heap.definitions[id]? = some definition)
    (hv : definition.variant = .struct fields) (hf : field_idx < fields.length) : ∃ d,
      insert_initial_select_polymorph_data heap poly_vars expr_id id field_idx = some d ∧
      d.Begins heap (.select subject field_name) := by
  have hmem : fields[field_idx].parser_type ∈ definition.signature_types := by
    rw [Definition.signature_types, hv]
    exact List.mem_map_of_mem (List.getElem_mem hf)
  obtain ⟨t, ht, hu, hs⟩ := determine_signature hp hw hd hmem
  have hs := hs fun he => by rw [he] at hv; cases hv
  simp only [insert_initial_select_polymorph_data, hd, hv, List.getElem?_eq_getElem hf, ht,
    Option.bind_eq_bind, Option.bind_some]
  generalize hn : definition.poly_vars.length = n at hu ⊢
  have hlen : ((List.range n).map fun poly_idx =>
      (⟨true, false, [.marker poly_idx, .unknown]⟩ : InferenceType)).length = n := by simp
  have hvars : ∀ v ∈ (List.range n).map fun poly_idx =>
      (⟨true, false, [.marker poly_idx, .unknown]⟩ : InferenceType), v.Formed heap := by
    refine List.forall_mem_map.mpr fun i _ => ⟨⟨.cons (.cons .nil), rfl⟩, ?_⟩
    simp only [List.forall_mem_cons, List.not_mem_nil, false_implies, implies_true, and_true]
    exact ⟨known_of_ne (by simp), known_of_ne (by simp)⟩
  have hsubject : (.«instance» id n :: (List.range n).flatMap fun poly_idx =>
      [.marker poly_idx, .unknown]) =
      .«instance» id n :: marked_arguments (fun _ => [.unknown]) (List.range n) 0 := by
    rw [marked_arguments_const, List.length_range, List.range_eq_range']
  refine ⟨_, rfl, ⟨⟨⟨definition, hd, hn.trans hlen.symm⟩, hvars, fun idx t' ht' => ?_⟩, rfl,
    fun _ idx t' ht' => ?_⟩⟩
  case refine_1 =>
    cases idx with
    | returned =>
      cases ht'
      exact ⟨hu.toFormed, (hlen.symm ▸ hu).agrees hvars⟩
    | embedded i =>
      have ht' := List.mem_singleton.mp (List.mem_of_getElem? ht')
      subst ht'
      refine ⟨formed_instance (fun _ => [.unknown]) (List.range n) ⟨definition, hd⟩
        (fun _ _ => .cons .nil) (fun _ _ => ?_) (by rw [List.length_range]; exact hsubject) ?_,
        agrees_arguments (fun _ => [.unknown]) (List.range n) hsubject
        (fun _ _ => ⟨.cons .nil, by decide⟩) (fun idx a ha => ?_)⟩
      · simp only [List.forall_mem_cons, List.not_mem_nil, false_implies, implies_true, and_true]
        exact known_of_ne (by simp)
      · cases n with
        | zero   => rfl
        | succ n =>
          simp only [InferenceTypePart.is_concrete, List.all_cons, Bool.false_and, List.all_eq_false,
            List.mem_range, Nat.succ_ne_zero, decide_false, Bool.false_eq, List.all_eq_false]
          exact ⟨0, Nat.succ_pos n, by simp⟩
      · obtain ⟨hi, _⟩ := List.getElem?_eq_some_iff.mp ha
        rw [List.length_range] at hi
        refine ⟨⟨true, false, [.marker idx, .unknown]⟩, by simp [hi], ?_⟩
        exact .refl _
  case refine_2 =>
    cases idx with
    | returned =>
      cases ht'
      exact hs
    | embedded i =>
      have ht' := List.mem_singleton.mp (List.mem_of_getElem? ht')
      subst ht'
      cases n with
      | zero   => exact .inr rfl
      | succ n => exact .inl (by simp)

-- Types of a signature that are settled, and one more.
theorem settled_signature {types embedded : List InferenceType} {returned : InferenceType}
    (he : ∀ t ∈ embedded, t.has_marker = true ∨ t.is_done = true)
    (hr : returned.has_marker = true ∨ returned.is_done = true) :
    ∀ idx t, ExtraData.signature_type ⟨expr_id, id, types, embedded, returned⟩ idx = some t →
      t.has_marker = true ∨ t.is_done = true := by
  intro idx t ht
  cases idx with
  | embedded i => exact he t (List.mem_of_getElem? ht)
  | returned =>
    cases ht
    exact hr

variable {types embedded : List InferenceType} {returned : InferenceType}

-- The data of an expression whose types belong to the signature of a definition.
theorem begins_of_unsettled {expr : PolymorphicExpression}
    (hd : heap.definitions[id]? = some definition) (hlen : types.length = definition.poly_vars.length)
    (hproper : ∀ v ∈ types, v.Proper heap) (helen : embedded.length = expr.expr_args.length)
    (hcreate : ¬expr.CallsCreate heap → definition ≠ builtin_create id)
    (he : ∀ t ∈ embedded, Unsettled heap definition.poly_vars.length t ∧
      (definition ≠ builtin_create id → t.has_marker = true ∨ t.is_done = true))
    (hr : returned.Formed heap ∧ (∃ ss, Agrees types returned ss) ∧
      (definition ≠ builtin_create id → returned.has_marker = true ∨ returned.is_done = true)) :
    ExtraData.Begins heap expr ⟨expr_id, id, types, embedded, returned⟩ where
  consistent := consistent_of_unsettled hd hlen (fun v hv => (hproper v hv).toFormed)
    (fun t ht => hlen.symm ▸ (he t ht).left) ⟨hr.left, hr.right.left⟩
  embedded   := helen
  settled hc := settled_signature (fun t ht => (he t ht).right (hcreate hc))
    (hr.right.right (hcreate hc))

-- The types of the members of a definition.
theorem mapM_signature {α : Type} {as : List α} {f : α → ParserType}
    (hp : ∀ c ∈ poly_vars, c.Inferable heap) (hw : heap.WellWritten)
    (hd : heap.definitions[id]? = some definition)
    (hm : ∀ a ∈ as, f a ∈ definition.signature_types) : ∃ embedded,
      as.mapM (fun a => determine_inference_type_from_parser_type_elements poly_vars (f a) false) =
        some embedded ∧ embedded.length = as.length ∧
      ∀ t ∈ embedded, Unsettled heap definition.poly_vars.length t ∧
        (definition ≠ builtin_create id → t.has_marker = true ∨ t.is_done = true) :=
  mapM_spec fun a ha => determine_signature hp hw hd (hm a ha)

theorem unsettled_void : Unsettled heap n ⟨false, true, [.void]⟩ where
  tree     := .cons .nil
  done     := rfl
  known    := by
    simp only [List.forall_mem_cons, List.not_mem_nil, false_implies, implies_true, and_true]
    exact known_of_ne (by simp)
  sections := ⟨[], .of_unmarked (by decide), fun _ h => absurd h List.not_mem_nil⟩

-- The data of the other expressions.
theorem begins_linked {body : TypedBody} {expr : PolymorphicExpression}
    (hp : ∀ c ∈ body.poly_vars, c.Inferable body.heap) (hw : body.heap.WellWritten)
    (hl : expr.Linked body.heap body.poly_vars.length) (hs : expr.is_select = false) : ∃ d,
      body.initial_polymorph_data expr_id expr = some d ∧ d.Begins body.heap expr := by
  cases expr with
  | select => cases hs
  | call id poly_args arguments =>
    obtain ⟨definition, parameters, hd, ⟨hlen, hargs⟩, hv, hplen⟩ := hl
    obtain ⟨types, htypes, htlen, hproper⟩ := mapM_poly_args hp hargs
    have hmem : ∀ parameter ∈ parameters, parameter.parser_type ∈ definition.signature_types := by
      intro parameter hm
      have hm := List.mem_map_of_mem (f := Parameter.parser_type) hm
      obtain hv | ⟨returned, builtin, hv⟩ := hv
      · rwa [Definition.signature_types, hv]
      · rw [Definition.signature_types, hv]
        exact List.mem_append_right _ hm
    obtain ⟨embedded, hembedded, helen, hspec⟩ := mapM_signature hp hw hd hmem
    have hcreate : ¬(PolymorphicExpression.call id poly_args arguments).CallsCreate body.heap →
        definition ≠ builtin_create id := fun hc he => hc (hd.trans (congrArg some he))
    obtain hv | ⟨returned, builtin, hv⟩ := hv
    · have hvoid : Unsettled body.heap types.length ⟨false, true, [.void]⟩ := unsettled_void
      simp only [TypedBody.initial_polymorph_data, insert_initial_call_polymorph_data, htypes, hd, hv,
        hembedded, htlen, hlen, Option.bind_eq_bind, Option.bind_some, ne_eq, not_true_eq_false, if_false]
      exact ⟨_, rfl, begins_of_unsettled hd (htlen.trans hlen) hproper (helen.trans hplen) hcreate hspec
        ⟨hvoid.toFormed, hvoid.agrees fun v hv => (hproper v hv).toFormed,
          fun _ => .inr rfl⟩⟩
    · have hreturned : returned ∈ definition.signature_types := by
        rw [Definition.signature_types, hv]
        exact List.mem_cons_self
      obtain ⟨t, ht, hu, hset⟩ := determine_signature hp hw hd hreturned
      simp only [TypedBody.initial_polymorph_data, insert_initial_call_polymorph_data, htypes, hd, hv,
        hembedded, htlen, hlen, ht, Option.bind_eq_bind, Option.bind_some, ne_eq, not_true_eq_false,
        if_false]
      refine ⟨_, rfl, begins_of_unsettled hd (htlen.trans hlen) hproper (helen.trans hplen) hcreate hspec
        ⟨hu.toFormed, ?_, hset⟩⟩
      rw [← hlen, ← htlen] at hu
      exact hu.agrees fun v hv => (hproper v hv).toFormed
  | struct_literal id poly_args fields =>
    obtain ⟨definition, def_fields, hd, ⟨hlen, hargs⟩, hv, hfields⟩ := hl
    obtain ⟨types, htypes, htlen, hproper⟩ := mapM_poly_args hp hargs
    obtain ⟨hf, hagrees, hset⟩ := literal_type_spec hd hproper
    obtain ⟨embedded, hembedded, helen, hspec⟩ := mapM_spec (l := fields) (f := fun field => do
        let def_field ← def_fields[field.1]?
        determine_inference_type_from_parser_type_elements body.poly_vars def_field.parser_type false)
      (P := fun t => Unsettled body.heap definition.poly_vars.length t ∧
        (definition ≠ builtin_create id → t.has_marker = true ∨ t.is_done = true)) (by
      intro field hfield
      have hi := hfields field hfield
      have hmem : def_fields[field.1].parser_type ∈ definition.signature_types := by
        rw [Definition.signature_types, hv]
        exact List.mem_map_of_mem (List.getElem_mem hi)
      obtain ⟨t, ht, hu, hs⟩ := determine_signature hp hw hd hmem
      exact ⟨t, by simp [List.getElem?_eq_getElem hi, ht], hu, hs⟩)
    have hcreate : definition ≠ builtin_create id := fun he => by rw [he] at hv; cases hv
    simp only [TypedBody.initial_polymorph_data, insert_initial_struct_polymorph_data, htypes, hd, hv,
      htlen, hlen, Option.bind_eq_bind, Option.bind_some, ne_eq, not_true_eq_false, if_false] at hembedded ⊢
    simp only [hembedded, Option.bind_some]
    exact ⟨_, rfl, begins_of_unsettled hd (htlen.trans hlen) hproper
      (helen.trans (List.length_map _).symm) (fun _ => hcreate) hspec ⟨hf, hagrees, fun _ => hset⟩⟩
  | enum_literal id poly_args =>
    obtain ⟨definition, hd, hlen, hargs⟩ := hl
    obtain ⟨types, htypes, htlen, hproper⟩ := mapM_poly_args hp hargs
    obtain ⟨hf, hagrees, hset⟩ := literal_type_spec hd hproper
    simp only [TypedBody.initial_polymorph_data, insert_initial_enum_polymorph_data, htypes,
      Option.bind_eq_bind, Option.bind_some]
    refine ⟨_, rfl, consistent_of_unsettled hd (htlen.trans hlen) (fun v hv => (hproper v hv).toFormed)
      ?_ ⟨hf, hagrees⟩, rfl, fun _ => settled_signature ?_ hset⟩
    all_goals exact fun _ h => absurd h List.not_mem_nil
  | union_literal id poly_args variant_idx values =>
    obtain ⟨definition, variants, variant, hd, ⟨hlen, hargs⟩, hv, hvar, hvlen⟩ := hl
    obtain ⟨types, htypes, htlen, hproper⟩ := mapM_poly_args hp hargs
    obtain ⟨hf, hagrees, hset⟩ := literal_type_spec hd hproper
    have hmem : ∀ elements ∈ variant.value, elements ∈ definition.signature_types := by
      intro elements hm
      rw [Definition.signature_types, hv]
      exact List.mem_flatMap.mpr ⟨variant, List.mem_of_getElem? hvar, hm⟩
    obtain ⟨embedded, hembedded, helen, hspec⟩ := mapM_signature hp hw hd hmem
    have hcreate : definition ≠ builtin_create id := fun he => by rw [he] at hv; cases hv
    simp only [TypedBody.initial_polymorph_data, insert_initial_union_polymorph_data, htypes, hd, hv,
      hvar, hvlen, hembedded, htlen, hlen, Option.bind_eq_bind, Option.bind_some, ne_eq,
      not_true_eq_false, if_false]
    exact ⟨_, rfl, begins_of_unsettled hd (htlen.trans hlen) hproper (helen.trans hvlen)
      (fun _ => hcreate) hspec ⟨hf, hagrees, fun _ => hset⟩⟩

end Begin

end Reowolf.Types
