import Reowolf.Library.PrefixTrees
import Reowolf.Types.ConcreteConversion
import Reowolf.Types.TypeTable

namespace Reowolf.Types

open PrefixTerms (Term)
open Reowolf.Parser (ParserTypeVariant)

namespace ConcreteType

def subtree_end_loop : (depth : Int) → (part_idx : Nat) → ConcreteType → Nat
  | _, _, [] => 0
  | depth, part_idx, part :: parts =>
    let depth_change := (part.num_embedded : Int) - 1
    if depth + depth_change = 0 then
      part_idx + 1
    else
      subtree_end_loop (depth + depth_change) (part_idx + 1) parts

-- The index behind the subtree that starts at the given one, or zero if the parts end before it does.
def subtree_end_idx (concrete_type : ConcreteType) (start_idx : Nat) : Nat :=
  subtree_end_loop 1 start_idx (concrete_type.drop start_idx)

end ConcreteType

structure ConcreteTypeIter where
  concrete     : ConcreteType
  idx_embedded : Nat
  num_embedded : Nat
  part_idx     : Nat

namespace ConcreteTypeIter

-- The iterator over the arguments of the part at an index. The source panics if there is no such part.
def embedded_iter (concrete_type : ConcreteType) (parent_part_idx : Nat) : Option ConcreteTypeIter :=
  concrete_type[parent_part_idx]?.map fun part =>
    { concrete     := concrete_type
      idx_embedded := 0
      num_embedded := part.num_embedded
      part_idx     := parent_part_idx + 1 }

def next (iter : ConcreteTypeIter) : Option (ConcreteType × ConcreteTypeIter) :=
  if iter.idx_embedded = iter.num_embedded then
    none
  else
    let start_idx := iter.part_idx
    let end_idx := iter.concrete.subtree_end_idx start_idx
    some ((iter.concrete.take end_idx).drop start_idx,
      { iter with idx_embedded := iter.idx_embedded + 1, part_idx := end_idx })

-- The iterator returns these types one after the other, and then no more.
inductive Yields : ConcreteTypeIter → List ConcreteType → Prop
  | done {iter : ConcreteTypeIter} : iter.next = none → Yields iter []
  | next {iter iter' : ConcreteTypeIter} {t : ConcreteType} {ts : List ConcreteType} :
      iter.next = some (t, iter') → Yields iter' ts → Yields iter (t :: ts)

end ConcreteTypeIter

-- What stands for a part of the type of a member in a container with the given arguments.
def member_part (poly_args : List (Term ConcreteTypePart)) (part : ParserTypeVariant) :
    Option (ConcreteTypePart ⊕ Term ConcreteTypePart) :=
  match parser_to_concrete_part part, part with
  | some part, _                                  => some (.inl part)
  | none, .polymorphicArgument _ poly_arg_idx => poly_args[poly_arg_idx]?.map .inr
  | none, _                                       => none

variable {n : Nat} {c rest : ConcreteType} {ts : List (Term ConcreteTypePart)}

theorem ConcreteType.subtree_end_loop_eq (h : Forest n c) (hn : n ≠ 0) (idx : Nat) :
    subtree_end_loop n idx (c ++ rest) = idx + c.length := by
  induction h generalizing idx with
  | nil => exact absurd rfl hn
  | @cons n p c h ih =>
    have hd : ((n + 1 : Nat) : Int) + ((p.num_embedded : Int) - 1) = ((n + p.num_embedded : Nat) : Int) := by
      omega
    rw [List.cons_append, subtree_end_loop]
    simp only [hd]
    split
    case isTrue hz =>
      have hz : n + p.num_embedded = 0 := Int.ofNat_eq_zero.mp hz
      rw [hz] at h
      cases h
      rfl
    case isFalse hz =>
      rw [ih (fun h0 => hz (by rw [h0]; rfl)), List.length_cons]
      omega

theorem ConcreteType.subtree_end_idx_eq {parts : ConcreteType} {start_idx : Nat} (h : Forest 1 c)
    (hd : parts.drop start_idx = c ++ rest) :
    subtree_end_idx parts start_idx = start_idx + c.length := by
  rw [subtree_end_idx, hd]
  exact subtree_end_loop_eq h Nat.one_ne_zero start_idx

namespace ConcreteTypeIter

-- The iterator returns the terms that are written from its index on.
theorem yields_of_drop {iter : ConcreteTypeIter} (hf : ∀ t ∈ ts, t.Formed ConcreteTypePart.num_embedded)
    (hn : iter.idx_embedded + ts.length = iter.num_embedded)
    (hd : iter.concrete.drop iter.part_idx = Term.listParts ts ++ rest) :
    iter.Yields (ts.map Term.parts) := by
  induction ts generalizing iter with
  | nil =>
    have hn : iter.idx_embedded = iter.num_embedded := hn
    exact .done (by rw [next, if_pos hn])
  | cons t ts ih =>
    obtain ⟨ht, hts⟩ := List.forall_mem_cons.mp hf
    rw [Term.listParts_cons, List.append_assoc] at hd
    have hend := ConcreteType.subtree_end_idx_eq ht.forest hd
    have hne : iter.idx_embedded ≠ iter.num_embedded := by
      rw [List.length_cons] at hn
      omega
    have hsection :
        (iter.concrete.take (iter.part_idx + t.parts.length)).drop iter.part_idx = t.parts := by
      rw [← List.take_drop, hd, List.take_left]
    have hnext : iter.next = some (t.parts, { iter with
        idx_embedded := iter.idx_embedded + 1, part_idx := iter.part_idx + t.parts.length }) := by
      rw [next, if_neg hne]
      simp only [hend, hsection]
    refine .next hnext ?_
    · apply ih hts
      · rw [← hn, List.length_cons]
        exact Nat.add_right_comm ..
      · rw [← List.drop_drop, hd, List.drop_left]

-- The iterator over the arguments of the part at an index returns these and nothing else.
theorem yields_args {t : Term ConcreteTypePart} (h : t.Formed ConcreteTypePart.num_embedded)
    {idx : Nat} (hidx : idx < t.parts.length) :
    ∃ s iter, t.subterms[idx]? = some s ∧ t.parts[idx]? = some s.root ∧
      embedded_iter t.parts idx = some iter ∧ iter.Yields (s.args.map Term.parts) := by
  rw [Term.parts_eq_map_root, List.length_map] at hidx
  have hs : t.subterms[idx]? = some t.subterms[idx] := List.getElem?_eq_getElem hidx
  have hroot : t.parts[idx]? = some (t.subterms[idx]).root := by
    rw [Term.parts_eq_map_root, List.getElem?_map, hs, Option.map_some]
  obtain ⟨rest, hdrop⟩ := Term.subterms_drop hs
  have hformed := h.subterm (List.getElem_mem hidx)
  refine ⟨_, _, hs, hroot, by rw [embedded_iter, hroot, Option.map_some], ?_⟩
  generalize t.subterms[idx] = s at hdrop hformed
  cases s with
  | node part args =>
    obtain ⟨hlen, hargs⟩ := Term.formed_node.mp hformed
    rw [Term.parts_node, List.cons_append] at hdrop
    apply yields_of_drop hargs
    · rw [Nat.zero_add, hlen]
      rfl
    · rw [← List.drop_drop, hdrop]
      rfl

end ConcreteTypeIter

-- A part that the type of a member may have in a container with the given number of arguments.
def CanBeMember (num_args : Nat) : ParserTypeVariant → Prop
  | .polymorphicArgument _ idx => idx < num_args
  | part => (parser_to_concrete_part part).isSome

theorem member_part_isSome {part : ParserTypeVariant} (h : CanBeMember ts.length part) :
    (member_part ts part).isSome := by
  unfold CanBeMember at h
  split at h
  case h_1 definition_id idx => simpa [member_part, parser_to_concrete_part] using h
  case h_2 =>
    obtain ⟨q, hq⟩ := Option.isSome_iff_exists.mp h
    simp [member_part, hq]

-- The parts of a type that is checked as the type of a member.
theorem Heap.canBeMember_of_check {heap : Heap} {parser_type : ParserType} {num_args : Nat}
    (hc : heap.check_member_parser_type parser_type false = .ok ())
    (hargs : ∀ definition_id idx, .polymorphicArgument definition_id idx ∈ parser_type → idx < num_args) :
    ∀ part ∈ parser_type, CanBeMember num_args part := by
  induction parser_type with
  | nil => nofun
  | cons part parser_type ih =>
    have hrest := fun hc => ih hc fun definition_id idx hm => hargs definition_id idx (.tail _ hm)
    cases part with
    | void | inputOrOutput | arrayLike | integerLike | integerLiteral | inferred => cases hc
    | polymorphicArgument definition_id idx =>
      exact List.forall_mem_cons.mpr ⟨hargs definition_id idx (.head _), hrest hc⟩
    | definition definition_id num =>
      refine List.forall_mem_cons.mpr ⟨rfl, hrest ?_⟩
      unfold check_member_parser_type at hc
      dsimp only at hc
      split at hc <;> first | exact hc | cases hc
    | _ => exact List.forall_mem_cons.mpr ⟨rfl, hrest hc⟩

variable {part : ParserTypeVariant} {q : ConcreteTypePart} {t : Term ConcreteTypePart}

theorem parser_to_concrete_part_of_member_part (h : member_part ts part = some (.inl q)) :
    parser_to_concrete_part part = some q := by
  unfold member_part at h
  split at h
  case h_1 hq => exact hq.trans (congrArg some (Sum.inl.inj (Option.some.inj h)))
  case h_2 => simp at h
  case h_3 => cases h

theorem num_embedded_of_member_part (h : member_part ts part = some (.inl q)) :
    q.num_embedded = part.num_embedded := by
  have hq := parser_to_concrete_part_of_member_part h
  cases part <;> cases hq <;> rfl

theorem mem_of_member_part (h : member_part ts part = some (.inr t)) :
    part.num_embedded = 0 ∧ t ∈ ts := by
  unfold member_part at h
  split at h
  case h_1 => cases h
  case h_2 =>
    obtain ⟨u, hu, ht⟩ := Option.map_eq_some_iff.mp h
    cases ht
    exact ⟨rfl, List.mem_of_getElem? hu⟩
  case h_3 => cases h

-- The arguments in front of the parts that follow the first one.
theorem embedded_iter_parts (h : t.Formed ConcreteTypePart.num_embedded) :
    ConcreteType.embedded_iter t.parts = t.args.map Term.parts := by
  cases t with
  | node part args =>
    obtain ⟨hlen, hargs⟩ := Term.formed_node.mp h
    have hforest : ∀ c ∈ args.map Term.parts, ConcreteType.Forest 1 c := by
      intro c hc
      obtain ⟨t, ht, htc⟩ := List.mem_map.mp hc
      exact htc ▸ (hargs t ht).forest
    rw [Term.parts_node, ConcreteType.embedded_iter, Term.listParts_eq_flatten, ← hlen,
      ← List.length_map Term.parts]
    exact ConcreteType.subtrees_flatten hforest

theorem construct_concrete_type_eq (h : t.Formed ConcreteTypePart.num_embedded)
    (member_type : ParserType) :
    construct_concrete_type member_type t.parts = Term.substParts (member_part t.args) member_type := by
  induction member_type with
  | nil => rfl
  | cons part member_type ih =>
    rw [Term.substParts, ← ih]
    cases part with
    | polymorphicArgument definition_id idx =>
      have hpart : parser_to_concrete_part (.polymorphicArgument definition_id idx) = none := rfl
      simp only [construct_concrete_type, member_part, hpart, embedded_iter_parts h, List.getElem?_map]
      cases t.args[idx]? <;> rfl
    | void | inputOrOutput | arrayLike | integerLike | integerLiteral | inferred => rfl
    | _ => rfl

-- A container and the type of one of its members as the trees that they stand for.
structure Substitutes (container_type : ConcreteType) (member_type : ParserType)
    (container : Term ConcreteTypePart) (member : Term ParserTypeVariant) : Prop where
  container_formed : container.Formed ConcreteTypePart.num_embedded
  container_parts  : container.parts = container_type
  member_formed    : member.Formed ParserTypeVariant.num_embedded
  member_parts     : member.parts = member_type
  constructs :
    construct_concrete_type member_type container_type =
      (member.subst (member_part container.args)).map Term.parts
  formed :
    ∀ t, member.subst (member_part container.args) = some t → t.Formed ConcreteTypePart.num_embedded
  total :
    (∀ part ∈ member_type, CanBeMember container.args.length part) →
      (member.subst (member_part container.args)).isSome
  iterates :
    ∀ idx < container_type.length, ∃ t iter,
      container.subterms[idx]? = some t ∧ container_type[idx]? = some t.root ∧
      ConcreteTypeIter.embedded_iter container_type idx = some iter ∧
      iter.Yields (t.args.map Term.parts)

-- The type of a member in a container is its own type with the arguments of the container in place of
-- the polymorphic variables, and the iterator finds the arguments of all types within the container.
theorem construct_concrete_type_spec {container_type : ConcreteType} {member_type : ParserType}
    (hc : ConcreteType.Forest 1 container_type)
    (hm : PrefixTerms.Forest ParserTypeVariant.num_embedded 1 member_type) :
    ∃ container member, Substitutes container_type member_type container member := by
  obtain ⟨container, hcf, hcp⟩ := hc.exists_term
  obtain ⟨member, hmf, hmp⟩ := hm.exists_term
  subst hcp hmp
  exact ⟨container, member, {
    container_formed := hcf
    container_parts  := rfl
    member_formed    := hmf
    member_parts     := rfl
    constructs := by
      rw [construct_concrete_type_eq hcf]
      exact Term.substParts_parts hmf fun p u hu => (mem_of_member_part hu).left
    formed t ht :=
      hmf.subst (fun p q hq => num_embedded_of_member_part hq)
        (fun p u hu => hcf.args u (mem_of_member_part hu).right) ht
    total hp := Term.subst_isSome fun p hp' => member_part_isSome (hp p hp')
    iterates idx hidx := ConcreteTypeIter.yields_args hcf hidx }⟩

-- A field of type `Box<B>` in `Pair<u8, bool[]>`.
theorem construct_concrete_type_spec_pair :
    construct_concrete_type [.definition 1 1, .polymorphicArgument 0 1]
        [.«instance» 0 2, .uint8, .array, .bool] =
      some [.«instance» 1 1, .array, .bool] ∧
    ∃ container member,
      Substitutes [.«instance» 0 2, .uint8, .array, .bool] [.definition 1 1, .polymorphicArgument 0 1]
        container member :=
  ⟨by decide, construct_concrete_type_spec (.cons (.cons (.cons (.cons .nil)))) (.cons (.cons .nil))⟩

end Reowolf.Types
