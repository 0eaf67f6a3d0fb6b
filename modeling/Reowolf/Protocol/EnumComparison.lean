import Reowolf.Protocol.Evaluation
import Reowolf.Protocol.PromptControl
import Reowolf.Types.TypeTable

namespace Reowolf

open Types (EnumType EnumVariant EnumVariantDefinition)

-- What the compiler has to know of where an expression stands for it to be a value, or a binding.
def Traversal.AllowsValue (t : Traversal) : Prop :=
  t.must_be_assignable = false

def Traversal.AllowsBinding (t : Traversal) : Prop :=
  t.must_be_assignable = false ∧ t.in_test_expr.isSome ∧ t.in_binding_expr = none ∧
    check_binding_parents t.expr_parent = .ok ()

-- The linking pass accepts the expression where it is allowed, and with what it has written into the
-- operands the expression evaluates to the boolean, and does nothing else.
def EvaluatesTo (ctx : LinkCtx) (allowed : Traversal → Prop) (expr : Expression) (holds : Bool) : Prop :=
  ∀ t names, allowed t → ∃ names', visit_expr ctx t expr names = .ok names' ∧
    ∀ (env : EvalEnv) (frame : Frame),
      (∀ operand ∈ expr.children,
        env.heap.names.expressions operand.this = names'.expressions operand.this) →
      ∀ store value store', expr.Evaluates env frame store value store' ↔
        value = some (.bool holds) ∧ store' = store

-- The literal `E::A`.
def Expression.enum (this : ExpressionId) (definition : DefinitionId) («variant» : EnumVariant) : Expression :=
  .literal this (.enum definition «variant».identifier) []

-- The variants of an enum compare as their values do, by the operator and as a pattern.
structure ComparesValues (ctx : LinkCtx) (definition : DefinitionId) (enum : EnumType) : Prop where
  equality : ∀ a ∈ enum.variants, ∀ b ∈ enum.variants, ∀ this left right, left ≠ right →
    EvaluatesTo ctx Traversal.AllowsValue
      (.binary this .equality (.enum left definition a) (.enum right definition b)) (a.value = b.value)
  binding : ∀ a ∈ enum.variants, ∀ b ∈ enum.variants, ∀ this left right, left ≠ right →
    EvaluatesTo ctx Traversal.AllowsBinding
      (.binding this (.enum left definition a) (.enum right definition b)) (a.value = b.value)

variable {ctx : LinkCtx} {t : Traversal} {names : Names} {this left right : ExpressionId}
variable {definition : DefinitionId} {name : Identifier} {identifiers : List Identifier}
variable {a b : EnumVariant} {i j : Nat}

-- The place of a variant in the definition is what the literal gets.
theorem visit_enum (ht : t.must_be_assignable = false) (hc : ctx.types definition = .enum name identifiers)
    (hi : identifiers.idxOf? a.identifier = some i) :
    visit_expr ctx t (.enum this definition a) names =
      .ok ((names.number this t.expr_parent).set_variant this i) := by
  have hcheck (names : Names) : check_literal ctx this 0 names (.enum definition a.identifier) =
      .ok (names.set_variant this i) := by
    simp only [check_literal, hc, hi]
  have hvisit : visit_expr ctx t (.enum this definition a) names =
      if t.must_be_assignable then .error (.parseError "cannot assign to a literal expression" [])
      else check_literal ctx this 0 (names.number this t.expr_parent) (.enum definition a.identifier) >>=
        fun names => .ok names := rfl
  rw [hvisit, if_neg (by rw [ht]; decide), hcheck]
  rfl

theorem visit_operands {t' : Traversal} (ht : t.must_be_assignable = false) (ht' : t'.must_be_assignable = false)
    (hne : left ≠ right) (hc : ctx.types definition = .enum name identifiers)
    (hi : identifiers.idxOf? a.identifier = some i) (hj : identifiers.idxOf? b.identifier = some j) :
    ∃ names', (visit_expr ctx t (.enum left definition a) names >>=
        visit_expr ctx t' (.enum right definition b)) = .ok names' ∧
      (names'.expressions left).variant_idx = i ∧ (names'.expressions right).variant_idx = j := by
  rw [visit_enum ht hc hi, Except.ok_bind, visit_enum ht' hc hj]
  refine ⟨_, rfl, ?_⟩
  simp [Names.set_variant, Names.number, hne]

theorem visit_equality (ht : t.AllowsValue) (hne : left ≠ right)
    (hc : ctx.types definition = .enum name identifiers) (hi : identifiers.idxOf? a.identifier = some i)
    (hj : identifiers.idxOf? b.identifier = some j) :
    ∃ names', visit_expr ctx t
        (.binary this .equality (.enum left definition a) (.enum right definition b)) names = .ok names' ∧
      (names'.expressions left).variant_idx = i ∧ (names'.expressions right).variant_idx = j := by
  have hvisit : visit_expr ctx t
      (.binary this .equality (.enum left definition a) (.enum right definition b)) names =
      if t.must_be_assignable then .error (not_assignable "binary")
      else visit_expr ctx (t.child (.binary this .equality (.enum left definition a) (.enum right definition b)) 0)
          (.enum left definition a) (names.number this t.expr_parent) >>=
        visit_expr ctx (t.child (.binary this .equality (.enum left definition a) (.enum right definition b)) 1)
          (.enum right definition b) := rfl
  rw [hvisit, if_neg (by rw [ht]; decide)]
  exact visit_operands ht ht hne hc hi hj

theorem visit_binding (ht : t.AllowsBinding) (hne : left ≠ right)
    (hc : ctx.types definition = .enum name identifiers) (hi : identifiers.idxOf? a.identifier = some i)
    (hj : identifiers.idxOf? b.identifier = some j) :
    ∃ names', visit_expr ctx t
        (.binding this (.enum left definition a) (.enum right definition b)) names = .ok names' ∧
      (names'.expressions left).variant_idx = i ∧ (names'.expressions right).variant_idx = j := by
  obtain ⟨ht, htest, hbinding, hparents⟩ := ht
  have hvisit : visit_expr ctx t (.binding this (.enum left definition a) (.enum right definition b)) names =
      if t.must_be_assignable then .error (not_assignable "binding")
      else if t.in_test_expr.isNone then
        .error (.parseError ("binding expressions can only be used inside the testing expression of " ++
          "'if' and 'while' statements") [])
      else if t.in_binding_expr.isSome then
        .error (.parseError "nested binding expressions are not allowed"
          ["the outer binding expression is found here"])
      else check_binding_parents t.expr_parent >>= fun _ =>
        visit_expr ctx { ({ t with in_binding_expr := some this } : Traversal).child
            (.binding this (.enum left definition a) (.enum right definition b)) 0 with
            in_binding_expr_lhs := true } (.enum left definition a) (names.number this t.expr_parent) >>=
          visit_expr ctx { ({ t with in_binding_expr := some this } : Traversal).child
            (.binding this (.enum left definition a) (.enum right definition b)) 1 with
            in_binding_expr_lhs := false } (.enum right definition b) := rfl
  rw [hvisit, if_neg (by rw [ht]; decide), if_neg (by rw [← Option.not_isSome, htest]; decide),
    if_neg (by rw [hbinding]; decide), hparents]
  exact visit_operands ht ht hne hc hi hj

section

variable {env : EvalEnv} {frame : Frame} {store store' : Store} {value : Option Value}

theorem enum_evaluates :
    (Expression.enum this definition a).Evaluates env frame store value store' ↔
      value = some (.enum (env.heap.names.expressions this).variant_idx) ∧ store' = store := by
  refine Expression.evaluates_literal.trans ⟨?_, ?_⟩
  · rintro ⟨_, _, _, ⟨rfl, rfl⟩, h, rfl⟩
    cases h
    exact ⟨rfl, rfl⟩
  · rintro ⟨rfl, rfl⟩
    exact ⟨[], store', _, ⟨rfl, rfl⟩, rfl, rfl⟩

-- An operation that compares the places, on two literals.
theorem operands_evaluate {compare : Value → Value → Store → Except Fault (Value × Store)}
    (hc : ∀ (i j : Nat) (store : Store), compare (.enum i) (.enum j) store = .ok (.bool ((i : Int) = j), store)) :
    (∃ rhs store₁ lhs store₂ result,
        (Expression.enum right definition b).Evaluates env frame store (some rhs) store₁ ∧
        (Expression.enum left definition a).Evaluates env frame store₁ (some lhs) store₂ ∧
        compare lhs rhs store₂ = .ok (result, store') ∧ value = some result) ↔
      value = some (.bool ((env.heap.names.expressions left).variant_idx =
        (env.heap.names.expressions right).variant_idx)) ∧ store' = store := by
  constructor
  case mp =>
    rintro ⟨rhs, store₁, lhs, store₂, result, hr, hl, h, rfl⟩
    obtain ⟨hrhs, rfl⟩ := enum_evaluates.mp hr
    obtain ⟨hlhs, rfl⟩ := enum_evaluates.mp hl
    cases hrhs
    cases hlhs
    rw [hc] at h
    cases h
    simp only [Int.ofNat_inj, and_self]
  case mpr =>
    rintro ⟨rfl, rfl⟩
    refine ⟨_, _, _, _, _, enum_evaluates.mpr ⟨rfl, rfl⟩, enum_evaluates.mpr ⟨rfl, rfl⟩, hc _ _ _, ?_⟩
    simp only [Int.ofNat_inj]

theorem equality_evaluates :
    (Expression.binary this .equality (.enum left definition a) (.enum right definition b)).Evaluates
        env frame store value store' ↔
      value = some (.bool ((env.heap.names.expressions left).variant_idx =
        (env.heap.names.expressions right).variant_idx)) ∧ store' = store :=
  operands_evaluate fun _ _ _ => rfl

theorem binding_evaluates :
    (Expression.binding this (.enum left definition a) (.enum right definition b)).Evaluates
        env frame store value store' ↔
      value = some (.bool ((env.heap.names.expressions left).variant_idx =
        (env.heap.names.expressions right).variant_idx)) ∧ store' = store :=
  operands_evaluate fun _ _ _ => rfl

end

-- An expression that compares what the pass has written into its two operands.
theorem evaluatesTo_iff {allowed : Traversal → Prop} {expr : Expression} {holds : Bool}
    (hchildren : expr.children.map Expression.this = [left, right])
    (hvisit : ∀ t names, allowed t → ∃ names', visit_expr ctx t expr names = .ok names' ∧
      (names'.expressions left).variant_idx = i ∧ (names'.expressions right).variant_idx = j)
    (heval : ∀ (env : EvalEnv) (frame : Frame) store value store',
      expr.Evaluates env frame store value store' ↔
        value = some (.bool ((env.heap.names.expressions left).variant_idx =
          (env.heap.names.expressions right).variant_idx)) ∧ store' = store)
    (hallowed : ∃ t, allowed t) : EvaluatesTo ctx allowed expr holds ↔ (decide (i = j) = holds) := by
  have hoperands (env : EvalEnv) (names : Names) :
      (∀ operand ∈ expr.children,
        env.heap.names.expressions operand.this = names.expressions operand.this) ↔
      env.heap.names.expressions left = names.expressions left ∧
        env.heap.names.expressions right = names.expressions right := by
    have hmap := List.forall_mem_map (P := fun id => env.heap.names.expressions id = names.expressions id)
      (f := Expression.this) (l := expr.children)
    rw [← hmap, hchildren]
    simp
  constructor
  case mp =>
    intro h
    obtain ⟨t, ht⟩ := hallowed
    obtain ⟨names', hv, hl, hr⟩ := hvisit t (.parsed []) ht
    obtain ⟨_, hv', h⟩ := h t (.parsed []) ht
    cases hv.symm.trans hv'
    have hvalue := (h ⟨⟨false, 0⟩, fun _ => none, [], .parsed names', fun _ _ _ => none⟩
      (.new (.parsed names') .break_at_once 0) (fun _ _ => rfl) .new _ _).mp ((heval _ _ _ _ _).mpr ⟨rfl, rfl⟩)
    cases hvalue.1
    exact congrArg₂ (fun i j : Nat => decide (i = j)) hl.symm hr.symm
  case mpr =>
    rintro rfl t names ht
    obtain ⟨names', hv, hl, hr⟩ := hvisit t names ht
    refine ⟨names', hv, fun env frame henv store value store' => ?_⟩
    rw [hoperands] at henv
    rw [heval, henv.1, henv.2, hl, hr]

-- Two variants are in the same place if they are the same.
theorem places_eq_iff {variants : List EnumVariant} (hn : (variants.map EnumVariant.identifier).Nodup)
    (ha : a ∈ variants) (hb : b ∈ variants)
    (hi : (variants.map EnumVariant.identifier).idxOf? a.identifier = some i)
    (hj : (variants.map EnumVariant.identifier).idxOf? b.identifier = some j) : i = j ↔ a = b := by
  constructor
  case mp =>
    rintro rfl
    obtain ⟨hlt, ha', _⟩ := List.findIdx?_eq_some_iff_getElem.mp hi
    obtain ⟨_, hb', _⟩ := List.findIdx?_eq_some_iff_getElem.mp hj
    exact List.inj_on_of_nodup_map hn ha hb ((beq_iff_eq.mp ha').symm.trans (beq_iff_eq.mp hb'))
  case mpr =>
    rintro rfl
    exact Option.some.inj (hi.symm.trans hj)

theorem place_exists {variants : List EnumVariant} (ha : a ∈ variants) :
    ∃ i, (variants.map EnumVariant.identifier).idxOf? a.identifier = some i := by
  have hm : a.identifier ∈ variants.map EnumVariant.identifier := List.mem_map_of_mem ha
  cases hi : (variants.map EnumVariant.identifier).idxOf? a.identifier with
  | none   => exact absurd hm (List.idxOf?_eq_none_iff.mp hi)
  | some i => exact ⟨i, rfl⟩

-- The names of an enum that the type table accepts are different.
theorem build_base_enum_definition_nodup {symbols : Parser.SymbolTable} {definition_id : DefinitionId}
    {ast : Types.Definition} {variants : List EnumVariantDefinition} {type : Types.DefinedType} {enum : EnumType}
    (h : Types.Heap.build_base_enum_definition symbols definition_id ast variants = .ok type)
    (he : type.definition = .enum enum) : (enum.variants.map EnumVariant.identifier).Nodup := by
  obtain ⟨built, _, h⟩ := Except.bind_eq_ok.mp h
  obtain ⟨_, hcheck, h⟩ := Except.bind_eq_ok.mp h
  obtain ⟨_, _, h⟩ := Except.bind_eq_ok.mp h
  cases h
  cases he
  by_contra hn
  cases (if_neg hn : Types.check_identifier_collision _ "enum variant" = _).symm.trans hcheck

-- The variants compare as their values do, if no two of them have the same value.
theorem enum_comparison_iff (symbols : Parser.SymbolTable) (definition_id : DefinitionId) (ast : Types.Definition)
    (variants : List EnumVariantDefinition) (type : Types.DefinedType) (enum : EnumType) (ctx : LinkCtx)
    (name : Identifier)
    (h : Types.Heap.build_base_enum_definition symbols definition_id ast variants = .ok type)
    (he : type.definition = .enum enum)
    (hc : ctx.types definition_id = .enum name (enum.variants.map EnumVariant.identifier)) :
    ComparesValues ctx definition_id enum ↔ (enum.variants.map EnumVariant.value).Nodup := by
  have hn := build_base_enum_definition_nodup h he
  have hequality {a b : EnumVariant} (ha : a ∈ enum.variants) (hb : b ∈ enum.variants) {this left right : ExpressionId}
      (hne : left ≠ right) :
      EvaluatesTo ctx Traversal.AllowsValue
        (.binary this .equality (.enum left definition_id a) (.enum right definition_id b)) (a.value = b.value) ↔
      (a = b ↔ a.value = b.value) := by
    obtain ⟨i, hi⟩ := place_exists ha
    obtain ⟨j, hj⟩ := place_exists hb
    rw [evaluatesTo_iff rfl (fun t names ht => visit_equality ht hne hc hi hj)
      (fun _ _ _ _ _ => equality_evaluates) ⟨.new .break_at_once, rfl⟩, decide_eq_decide,
      places_eq_iff hn ha hb hi hj]
  have hbinding {a b : EnumVariant} (ha : a ∈ enum.variants) (hb : b ∈ enum.variants) {this left right : ExpressionId}
      (hne : left ≠ right) :
      EvaluatesTo ctx Traversal.AllowsBinding
        (.binding this (.enum left definition_id a) (.enum right definition_id b)) (a.value = b.value) ↔
      (a = b ↔ a.value = b.value) := by
    obtain ⟨i, hi⟩ := place_exists ha
    obtain ⟨j, hj⟩ := place_exists hb
    rw [evaluatesTo_iff rfl (fun t names ht => visit_binding ht hne hc hi hj)
      (fun _ _ _ _ _ => binding_evaluates)
      ⟨{ Traversal.new .break_at_once with in_test_expr := some 0, expr_parent := .if 0 }, rfl, rfl, rfl, rfl⟩,
      decide_eq_decide, places_eq_iff hn ha hb hi hj]
  constructor
  case mp =>
    intro hcompares
    refine hn.of_map.map_on fun a ha b hb hv => ?_
    exact ((hequality ha hb Nat.zero_ne_one).mp (hcompares.equality a ha b hb 0 0 1 Nat.zero_ne_one)).mpr hv
  case mpr =>
    intro hvalues
    have hiff (a b : EnumVariant) (ha : a ∈ enum.variants) (hb : b ∈ enum.variants) : a = b ↔ a.value = b.value :=
      ⟨congrArg _, fun hv => List.inj_on_of_nodup_map hvalues ha hb hv⟩
    constructor
    case equality => exact fun a ha b hb _ _ _ hne => (hequality ha hb hne).mpr (hiff a b ha hb)
    case binding => exact fun a ha b hb _ _ _ hne => (hbinding ha hb hne).mpr (hiff a b ha hb)

def LinkCtx.of_enum (name : Identifier) (variants : List Identifier) : LinkCtx where
  types _        := .enum name variants
  has_symbol _ _ := false

-- The definition `enum Foo { A = 7, B }`.
theorem enum_comparison_successor :
    ∃ type enum, Types.Heap.build_base_enum_definition .new 0 ⟨none, "Foo", [], .enum []⟩
        [⟨"A", some 7⟩, ⟨"B", none⟩] = .ok type ∧ type.definition = .enum enum ∧
      ComparesValues (.of_enum "Foo" ["A", "B"]) 0 enum :=
  ⟨_, _, rfl, rfl, (enum_comparison_iff .new 0 ⟨none, "Foo", [], .enum []⟩ [⟨"A", some 7⟩, ⟨"B", none⟩] _ _
    (.of_enum "Foo" ["A", "B"]) "Foo" rfl rfl rfl).mpr (by decide)⟩

-- In `enum Foo { A = 15, B = 0xF }` the variants have the same value, but `Foo::A == Foo::B` is false.
theorem enum_comparison_same_value :
    ∃ type enum, Types.Heap.build_base_enum_definition .new 0 ⟨none, "Foo", [], .enum []⟩
        [⟨"A", some 15⟩, ⟨"B", some 15⟩] = .ok type ∧ type.definition = .enum enum ∧
      enum.variants = [⟨"A", 15⟩, ⟨"B", 15⟩] ∧
      EvaluatesTo (.of_enum "Foo" ["A", "B"]) Traversal.AllowsValue
        (.binary 0 .equality (.enum 1 0 ⟨"A", 15⟩) (.enum 2 0 ⟨"B", 15⟩)) false ∧
      ¬ComparesValues (.of_enum "Foo" ["A", "B"]) 0 enum := by
  have hiff (holds : Bool) : EvaluatesTo (.of_enum "Foo" ["A", "B"]) Traversal.AllowsValue
      (.binary 0 .equality (.enum 1 0 ⟨"A", 15⟩) (.enum 2 0 ⟨"B", 15⟩)) holds ↔ decide (0 = 1) = holds :=
    evaluatesTo_iff rfl (fun t names ht => visit_equality ht (by decide) rfl rfl rfl)
      (fun _ _ _ _ _ => equality_evaluates) ⟨.new .break_at_once, rfl⟩
  refine ⟨_, _, rfl, rfl, rfl, (hiff false).mpr rfl, fun h => ?_⟩
  have hequal := h.equality ⟨"A", 15⟩ List.mem_cons_self ⟨"B", 15⟩ (List.mem_cons_of_mem _ List.mem_cons_self)
    0 1 2 (by decide)
  exact absurd ((hiff true).mp hequal) (by decide)

end Reowolf
