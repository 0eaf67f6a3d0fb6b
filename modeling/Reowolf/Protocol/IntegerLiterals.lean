import Reowolf.Parser.IntegerLiterals
import Reowolf.Protocol.Arithmetic
import Reowolf.Types.PolymorphicInference

namespace Reowolf

open Reowolf.Parser (TokenIter consume_integer_literal consume_integer_literal_iff IntegerText Denotes)

namespace Types

-- `progress_literal_expr` for an integer literal: its value is not looked at.
def progress_integer_literal (expr_type : InferenceType) : Option (Except Unit Bool × InferenceType) :=
  apply_template_constraint_to_types expr_type 0 [.integerLike] 0

-- `resolve_types` for the type of an expression: whether it has to be queued again, or an error if the
-- type is not known.
def resolve_type (expr_type : InferenceType) : Except Unit (Bool × InferenceType) :=
  if expr_type.is_done then .ok (false, expr_type)
  else if expr_type.parts = [.integerLike] then .ok (true, { expr_type with parts := [.sint32] })
  else .error ()

def InferenceTypePart.integer_type : InferenceTypePart → Option IntegerType
  | uint8  => some ⟨false, .w8⟩
  | uint16 => some ⟨false, .w16⟩
  | uint32 => some ⟨false, .w32⟩
  | uint64 => some ⟨false, .w64⟩
  | sint8  => some ⟨true, .w8⟩
  | sint16 => some ⟨true, .w16⟩
  | sint32 => some ⟨true, .w32⟩
  | sint64 => some ⟨true, .w64⟩
  | _      => none

-- A literal whose type is resolved is of an integer type.
theorem resolve_integer_literal {part : InferenceTypePart} {progressed queued : Bool}
    {expr_type resolved : InferenceType}
    (hp : progress_integer_literal ⟨false, part.is_concrete, [part]⟩ = some (.ok progressed, expr_type))
    (hr : resolve_type expr_type = .ok (queued, resolved)) :
    ∃ part' type, resolved.parts = [part'] ∧ part'.integer_type = some type := by
  cases part with
  | unknown | numberLike | integerLike | uint8 | uint16 | uint32 | uint64 | sint8 | sint16 | sint32 | sint64 =>
    cases hp
    cases hr
    exact ⟨_, _, rfl, rfl⟩
  | _ => cases hp

end Types

namespace IntegerType

variable {type : IntegerType}

-- Truncation keeps the numbers of a type.
theorem toInt_setWidth_iff (number : BitVec 64) :
    toInt (number.setWidth type.bits : Integer type) = number.toNat ↔ (number.toNat : Int) ≤ type.max := by
  have hcast : (number.setWidth type.bits : Integer type) = BitVec.ofInt type.bits number.toNat := by
    apply BitVec.eq_of_toNat_eq
    simp
  constructor
  case mp =>
    intro h
    rw [← h]
    exact (contains_toInt _).right
  case mpr =>
    intro h
    rw [hcast]
    exact toInt_ofInt ⟨Int.le_trans type.contains_zero.left (Int.natCast_nonneg _), h⟩

end IntegerType

-- A frame that is about to evaluate an integer literal.
def Frame.at_literal (frame : Frame) (this : ExpressionId) (number : BitVec 64) : Frame :=
  { frame with expr_stack := .evalExpr (.literal this (.integer number) []) :: frame.expr_stack }

theorem advance_literal {env : EvalEnv} {ctx : EvalContext} {frame : Frame} {frames : List Frame}
    {store : Store} {this : ExpressionId} {number : BitVec 64} {type : IntegerType}
    {parts : ConcreteType} {idx : Nat} (hp : frame.position.isSome)
    (hd : env.data frame this = .ok ⟨.integer type :: parts, idx⟩) :
    Prompt.advance env ctx ⟨frame.at_literal this number :: frames, store⟩ =
      .ok (.more ⟨{ frame with
        expr_values := frame.expr_values ++ [.integer type (number.setWidth type.bits)] } :: frames,
        store⟩) := by
  obtain ⟨position, hp⟩ := Option.isSome_iff_exists.mp hp
  obtain ⟨definition, monomorph_idx, _, expr_stack, values, size⟩ := frame
  cases hp
  have heval : eval_literal env ⟨definition, monomorph_idx, some position, expr_stack, values, size⟩ this
      (.integer number) 0 values store =
        .ok (values ++ [.integer type (number.setWidth type.bits)], store) := by
    simp only [eval_literal, hd, Except.ok_bind]
  change finish_expr _ frames (eval_literal env
    ⟨definition, monomorph_idx, some position, expr_stack, values, size⟩ this _ 0 values store) = _
  rw [heval]
  rfl

-- If the parser takes the literal, its evaluation gives the number.
def KeepsLiteral (env : EvalEnv) (ctx : EvalContext) (frame : Frame) (frames : List Frame) (store : Store)
    (this : ExpressionId) (text gap : String) (rest : TokenIter) (type : IntegerType) (n : Nat) : Prop :=
  ∀ number iter, consume_integer_literal (⟨.integer, text, gap⟩ :: rest) = .ok (number, iter) →
    ∃ v : Integer type, IntegerType.toInt v = n ∧
      Prompt.advance env ctx ⟨frame.at_literal this number :: frames, store⟩ =
        .ok (.more ⟨{ frame with expr_values := frame.expr_values ++ [.integer type v] } :: frames, store⟩)

-- A literal keeps its number if the number is one of the type that is inferred for it, or so large that
-- the parser refuses it.
theorem literal_kept_iff (env : EvalEnv) (ctx : EvalContext) (frame : Frame) (frames : List Frame)
    (store : Store) (this : ExpressionId) (text gap : String) (rest : TokenIter) (type : IntegerType)
    (parts : ConcreteType) (idx n : Nat) (hp : frame.position.isSome)
    (hd : env.data frame this = .ok ⟨.integer type :: parts, idx⟩) (ht : IntegerText text.toList)
    (hn : Denotes text.toList n) :
    KeepsLiteral env ctx frame frames store this text gap rest type n ↔
      (n : Int) ≤ type.max ∨ 2 ^ 64 ≤ n := by
  constructor
  case mp =>
    intro h
    by_cases hlt : n < 2 ^ 64
    case neg => exact .inr (not_lt.mp hlt)
    case pos =>
      have hnat : (BitVec.ofNat 64 n).toNat = n := by rw [BitVec.toNat_ofNat, Nat.mod_eq_of_lt hlt]
      have hc : consume_integer_literal (⟨.integer, text, gap⟩ :: rest) = .ok (BitVec.ofNat 64 n, rest) :=
        (consume_integer_literal_iff ht).mpr ⟨hnat.symm ▸ hn, rfl⟩
      obtain ⟨v, hv, hadvance⟩ := h _ _ hc
      rw [advance_literal hp hd] at hadvance
      simp only [Except.ok.injEq, Outcome.more.injEq, Prompt.mk.injEq, List.cons.injEq, Frame.mk.injEq,
        List.append_cancel_left_eq, Value.integer.injEq, heq_eq_eq, true_and, and_true] at hadvance
      have hle := (IntegerType.toInt_setWidth_iff _).mp (hadvance ▸ hnat.symm ▸ hv)
      exact .inl (hnat ▸ hle)
  case mpr =>
    intro h number iter hc
    have he := (((consume_integer_literal_iff ht).mp hc).1).unique hn
    subst he
    cases h with
    | inl hle => exact ⟨_, (IntegerType.toInt_setWidth_iff number).mpr hle, advance_literal hp hd⟩
    | inr hge => exact absurd number.isLt (not_lt.mpr hge)

-- The literal `0xF_f` of type `s32`.
theorem literal_kept_hexadecimal :
    KeepsLiteral (.divides 1 1) .none (.divides 1 1) [] .new 1 "0xF_f" "" [] ⟨true, .w32⟩ 255 := by
  have htext : "0xF_f".toList = ['0', 'x', 'F', '_', 'f'] := rfl
  refine (literal_kept_iff _ _ _ _ _ _ _ _ _ _ [] 0 _ rfl rfl ?_ ?_).mpr (.inl (by decide)) <;> rw [htext]
  · exact ⟨'0', ['x', 'F', '_', 'f'], rfl, rfl, List.all_eq_true.mp rfl⟩
  · exact ⟨[15, 15], by decide, by decide, .cons ⟨rfl, by decide⟩ (.cons ⟨rfl, by decide⟩ .nil)⟩

-- The literal `2147483648`: nothing is known of its type, so that it becomes `s32`, of which it becomes
-- the least number.
theorem literal_not_kept :
    consume_integer_literal [⟨.integer, "2147483648", ""⟩] = .ok (2147483648, []) ∧
      (∃ expr_type, Types.progress_integer_literal ⟨false, false, [.unknown]⟩ = some (.ok true, expr_type) ∧
        Types.resolve_type expr_type = .ok (true, ⟨false, false, [.sint32]⟩)) ∧
      Prompt.advance (.divides 1 1) .none ⟨[(Frame.divides 1 1).at_literal 1 2147483648], .new⟩ =
        .ok (.more ⟨[{ Frame.divides 1 1 with
          expr_values := (Frame.divides 1 1).expr_values ++ [.integer ⟨true, .w32⟩ (-2147483648)] }],
          .new⟩) :=
  ⟨rfl, ⟨_, rfl, rfl⟩, rfl⟩

end Reowolf
