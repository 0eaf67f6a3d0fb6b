import Reowolf.Parser.ImportResolution

namespace Reowolf.Parser

section

variable {definitions definitions' : List ReservedDefinition} {modules modules' : List ModuleSource}

theorem getElem?_of_prefix {α : Type} {as bs : List α} (h : as <+: bs) {k : Nat} {a : α}
    (hk : as[k]? = some a) : bs[k]? = some a := by
  obtain ⟨_, he⟩ := h
  rw [← he, List.getElem?_append_left (List.getElem?_eq_some_iff.mp hk).1, hk]

theorem getElem?_concat_cases {α : Type} {as : List α} {a b : α} {k : Nat}
    (h : (as ++ [a])[k]? = some b) : as[k]? = some b ∨ k = as.length ∧ b = a := by
  by_cases hk : k < as.length
  · exact .inl (List.getElem?_append_left hk ▸ h)
  · have hl := (List.getElem?_eq_some_iff.mp h).1
    rw [List.length_append, List.length_singleton] at hl
    have hk : k = as.length := by omega
    subst hk
    rw [List.getElem?_concat_length] at h
    exact .inr ⟨rfl, (Option.some.inj h).symm⟩

theorem Defined.mono {root_id : RootId} {symbol : Symbol} {name : Identifier}
    (h : Defined definitions root_id symbol name) (hd : definitions <+: definitions') :
    Defined definitions' root_id symbol name := by
  obtain ⟨definition, reserved, hv, hi, hs, hr, hrest⟩ := h.variant
  exact ⟨h.same, definition, reserved, hv, hi, hs, getElem?_of_prefix hd hr, hrest⟩

-- What has been shown once stays as it is when definitions and modules are added.
theorem Shows.mono {symbol : Symbol} {shown : Identifier × Entity}
    (h : Shows definitions modules symbol shown) (hd : definitions <+: definitions')
    (hm : modules <+: modules') : Shows definitions' modules' symbol shown := by
  refine ⟨h.name, ?_⟩
  have he := h.entity
  unfold entity_of at he ⊢
  cases hv : symbol.variant
  case module root_id =>
    rw [hv] at he
    obtain ⟨m, hk, he⟩ := Option.map_eq_some_iff.mp he
    exact Option.map_eq_some_iff.mpr ⟨m, getElem?_of_prefix hm hk, he⟩
  case definition definition =>
    rw [hv] at he
    obtain ⟨reserved, hr, he⟩ := Option.bind_eq_some_iff.mp he
    refine Option.bind_eq_some_iff.mpr ⟨reserved, getElem?_of_prefix hd hr, ?_⟩
    match hin : reserved.defined_in, he with
    | none, he => exact he
    | some root_id, he =>
      obtain ⟨m, hk, he⟩ := Option.map_eq_some_iff.mp he
      exact Option.map_eq_some_iff.mpr ⟨m, getElem?_of_prefix hm hk, he⟩

end

-- What the scanning of the ranges of a module does.
structure Scans (root_id : RootId) (pass : PassSymbols) (ctx : PassCtx) (ranges : ModuleSource)
    (pass' : PassSymbols) (ctx' : PassCtx) : Prop where
  symbols     : ∃ new, pass'.symbols = pass.symbols ++ new ∧
    List.Forall₂ (Defined ctx'.heap.definitions root_id) new (ModuleSource.defined_names ranges)
  definitions : ctx.heap.definitions <+: ctx'.heap.definitions
  roots       : ctx'.heap.protocol_descriptions = ctx.heap.protocol_descriptions
  scopes      : ctx'.symbols.scope_lookup = ctx.symbols.scope_lookup
  module      : ∀ name, ctx'.symbols.module_lookup name =
    if name ∈ ModuleSource.module_names ranges then some root_id else ctx.symbols.module_lookup name

-- No pragma is given that has been given before.
structure Admits (pass : PassSymbols) (ctx : PassCtx) (ranges : ModuleSource) : Prop where
  once_module  : (ModuleSource.module_names ranges).length + pass.has_pragma_module.toNat ≤ 1
  once_version : (ModuleSource.versions ranges).length + pass.has_pragma_version.toNat ≤ 1
  new_name     : ∀ name ∈ ModuleSource.module_names ranges, ctx.symbols.module_lookup name = none

section

variable {root_id : RootId} {pass pass' pass'' : PassSymbols} {ctx ctx' ctx'' : PassCtx}

theorem Scans.trans {ranges ranges' : ModuleSource} (h : Scans root_id pass ctx ranges pass' ctx')
    (h' : Scans root_id pass' ctx' ranges' pass'' ctx'') :
    Scans root_id pass ctx (ranges ++ ranges') pass'' ctx'' where
  symbols := by
    obtain ⟨new, he, hf⟩ := h.symbols
    obtain ⟨new', he', hf'⟩ := h'.symbols
    refine ⟨new ++ new', by rw [he', he, List.append_assoc], ?_⟩
    rw [ModuleSource.defined_names, List.filterMap_append]
    exact List.rel_append (hf.imp fun _ _ hd => hd.mono h'.definitions) hf'
  definitions := h.definitions.trans h'.definitions
  roots := h'.roots.trans h.roots
  scopes := h'.scopes.trans h.scopes
  module name := by
    rw [h'.module, h.module, ModuleSource.module_names, ModuleSource.module_names,
      ModuleSource.module_names, List.filterMap_append]
    simp only [List.mem_append]
    by_cases h₁ : name ∈ List.filterMap RangeSource.module_name? ranges' <;>
      by_cases h₂ : name ∈ List.filterMap RangeSource.module_name? ranges <;> simp [h₁, h₂]

theorem definition_variant_keyword (variant : DefinitionVariant) :
    PassSymbols.definition_variant variant.keyword = some variant := by
  cases variant <;> simp [PassSymbols.definition_variant, DefinitionVariant.keyword]

theorem eq_false_of_once {had_one : Bool} (h : 1 + had_one.toNat ≤ 1) : had_one = false := by
  cases had_one
  case false => rfl
  case true => simp at h

-- One range is scanned.
theorem visit_range_ok (root_id : RootId) {range : RangeSource} (hw : range.WellFormed)
    (ha : Admits pass ctx [range]) :
    ∃ pass' ctx', pass.visit_range root_id ctx range.range = .ok (pass', ctx') ∧
      Scans root_id pass ctx [range] pass' ctx' ∧
      pass'.has_pragma_module.toNat =
        (ModuleSource.module_names [range]).length + pass.has_pragma_module.toNat ∧
      pass'.has_pragma_version.toNat =
        (ModuleSource.versions [range]).length + pass.has_pragma_version.toNat := by
  cases range
  case module name =>
    have hm : pass.has_pragma_module = false := eq_false_of_once ha.once_module
    have hl : ctx.symbols.module_lookup name.text = none :=
      ha.new_name _ (List.mem_singleton_self _)
    have hread : consume_domain_ident (name.tokens ++ []) = .ok (name.text, []) :=
      consume_domain_ident_tokens hw (by simp)
    rw [List.append_nil] at hread
    let symbols : SymbolTable := { ctx.symbols with
      module_lookup := Function.update ctx.symbols.module_lookup name.text (some root_id) }
    let heap : ModuleHeap := { ctx.heap with pragmas := ctx.heap.pragmas ++ [.module name.text] }
    refine ⟨{ pass with pragmas := pass.pragmas ++ [ctx.heap.pragmas.length]
                        has_pragma_module := true }, ⟨heap, symbols⟩, ?_,
      ⟨⟨[], by simp, .nil⟩, List.prefix_rfl, rfl, rfl, fun name' => ?_⟩, by rw [hm]; rfl,
      (Nat.zero_add _).symm⟩
    · simp [PassSymbols.visit_range, RangeSource.range, PassSymbols.visit_pragma_range,
        consume_pragma, hm, hread, SymbolTable.insert_module, hl, bind, Except.bind, symbols, heap]
    · simp [symbols, Function.update_apply, ModuleSource.module_names, RangeSource.module_name?]
  case version number =>
    have hv : pass.has_pragma_version = false := eq_false_of_once ha.once_version
    have hread : consume_integer_literal [⟨.integer, number.toNat.repr, ""⟩] = .ok (number, []) :=
      consume_integer_literal_toString number "" []
    let heap : ModuleHeap := { ctx.heap with pragmas := ctx.heap.pragmas ++ [.version number] }
    refine ⟨{ pass with pragmas := pass.pragmas ++ [ctx.heap.pragmas.length]
                        has_pragma_version := true }, ⟨heap, ctx.symbols⟩, ?_,
      ⟨⟨[], by simp, .nil⟩, List.prefix_rfl, rfl, rfl, fun name' => ?_⟩, (Nat.zero_add _).symm,
      by rw [hv]; rfl⟩
    · simp [PassSymbols.visit_range, RangeSource.range, PassSymbols.visit_pragma_range,
        consume_pragma, hv, hread, bind, Except.bind, heap]
    · simp [ModuleSource.module_names, RangeSource.module_name?]
  case definition variant name poly_vars body =>
    obtain ⟨hn, hp, hb⟩ := hw
    have hread := maybe_consume_poly_vars hp body hb
    have hkw : consume_any_ident (.ident variant.keyword :: .ident name ::
        (RangeSource.poly_var_tokens poly_vars ++ body)) =
        .ok (variant.keyword, .ident name :: (RangeSource.poly_var_tokens poly_vars ++ body)) := rfl
    let reserved : ReservedDefinition := ⟨some root_id, variant, name, poly_vars⟩
    let definition : SymbolDefinition :=
      ⟨some root_id, .module root_id, none, variant.class, ctx.heap.definitions.length⟩
    let heap : ModuleHeap := { ctx.heap with definitions := ctx.heap.definitions ++ [reserved] }
    refine ⟨{ pass with symbols := pass.symbols ++ [⟨name, .definition definition⟩]
                        definitions := pass.definitions ++ [ctx.heap.definitions.length] },
      ⟨heap, ctx.symbols⟩, ?_, ⟨⟨[⟨name, .definition definition⟩], rfl, .cons ?_ .nil⟩,
        List.prefix_append _ _, rfl, rfl, fun name' => ?_⟩, (Nat.zero_add _).symm,
      (Nat.zero_add _).symm⟩
    · simp only [PassSymbols.visit_range, RangeSource.range, PassSymbols.visit_definition_range, hkw,
        consume_ident_ident hn, bind, Except.bind, hread, definition_variant_keyword]
      rfl
    · exact ⟨rfl, definition, reserved, rfl, rfl, rfl, by simp [heap, definition], rfl, rfl⟩
    · simp [ModuleSource.module_names, RangeSource.module_name?]
  case «import» | code =>
    exact ⟨pass, ctx, rfl, ⟨⟨[], by simp, .nil⟩, List.prefix_rfl, rfl, rfl, fun name' => by
      simp [ModuleSource.module_names, RangeSource.module_name?]⟩, (Nat.zero_add _).symm,
      (Nat.zero_add _).symm⟩

theorem module_names_cons (range : RangeSource) (ranges : ModuleSource) :
    ModuleSource.module_names (range :: ranges) =
      ModuleSource.module_names [range] ++ ModuleSource.module_names ranges :=
  List.filterMap_append (l := [range])

theorem versions_cons (range : RangeSource) (ranges : ModuleSource) :
    ModuleSource.versions (range :: ranges) =
      ModuleSource.versions [range] ++ ModuleSource.versions ranges :=
  List.filterMap_append (l := [range])

theorem visit_ranges_ok (root_id : RootId) (ranges : ModuleSource) (hw : ∀ range ∈ ranges, range.WellFormed)
    (ha : Admits pass ctx ranges) :
    ∃ pass' ctx', pass.visit_ranges root_id ctx (ranges.map RangeSource.range) = .ok (pass', ctx') ∧
      Scans root_id pass ctx ranges pass' ctx' := by
  induction ranges generalizing pass ctx
  case nil =>
    exact ⟨pass, ctx, rfl, ⟨⟨[], by simp, .nil⟩, List.prefix_rfl, rfl, rfl, fun name => by
      simp [ModuleSource.module_names]⟩⟩
  case cons range ranges ih =>
    obtain ⟨hr, hw⟩ := List.forall_mem_cons.mp hw
    have hmodule := ha.once_module
    have hversion := ha.once_version
    have hname := ha.new_name
    rw [module_names_cons, List.length_append] at hmodule
    rw [versions_cons, List.length_append] at hversion
    simp only [module_names_cons range ranges, List.mem_append] at hname
    have hadmits : Admits pass ctx [range] :=
      ⟨by omega, by omega, fun name hn => hname name (.inl hn)⟩
    obtain ⟨pass₁, ctx₁, he₁, hs₁, hm₁, hv₁⟩ := visit_range_ok root_id hr hadmits
    have hadmits' : Admits pass₁ ctx₁ ranges := by
      refine ⟨by omega, by omega, fun name hn => ?_⟩
      -- There is at most one name, so that of this range is not among the others.
      have hnot : name ∉ ModuleSource.module_names [range] := fun hn' => by
        have := List.length_pos_of_mem hn
        have := List.length_pos_of_mem hn'
        omega
      rw [hs₁.module, if_neg hnot]
      exact hname name (.inr hn)
    obtain ⟨pass₂, ctx₂, he₂, hs₂⟩ := ih hw hadmits'
    refine ⟨pass₂, ctx₂, ?_, hs₁.trans hs₂⟩
    simp only [List.map_cons, PassSymbols.visit_ranges]
    exact Except.bind_eq_ok.mpr ⟨_, he₁, he₂⟩

end

-- A module as it is fed, and as it is when it has been scanned.
def fed (m : ModuleSource) : Module := ⟨m.map RangeSource.range, none⟩

def scanned (root_id : RootId) (m : ModuleSource) : Module := ⟨m.map RangeSource.range, some root_id⟩

def builtin_names : List Identifier := builtin_functions.map Prod.fst

theorem builtin_symbols_names : builtin_symbols.map Symbol.name = builtin_names := rfl

theorem Defined.names {definitions : List ReservedDefinition} {root_id : RootId}
    {symbols : List Symbol} {names : List Identifier}
    (h : List.Forall₂ (Defined definitions root_id) symbols names) :
    symbols.map Symbol.name = names := by
  induction h
  case nil => rfl
  case cons hd _ ih => rw [List.map_cons, hd.same, ih]

theorem module_name_eq_some {m : ModuleSource} (h : (ModuleSource.module_names m).length ≤ 1)
    (name : Identifier) :
    name ∈ ModuleSource.module_names m ↔ ModuleSource.module_name m = some name := by
  unfold ModuleSource.module_name
  match ModuleSource.module_names m, h with
  | [], _ => simp
  | [name'], _ => simp [eq_comm]

section

variable {ctx : PassCtx} {modules : List ModuleSource} {defined : RootId → List Symbol}

-- The state of the tables once the symbols of some modules have been scanned.
abbrev Scanned (ctx : PassCtx) (modules : List ModuleSource) (defined : RootId → List Symbol) : Prop :=
  Tables ctx modules defined fun _ => []

-- One more module is scanned. All of its definitions have to have names of their own.
theorem Scanned.parse (h : Scanned ctx modules defined) {m : ModuleSource}
    (hw : ModuleSource.WellFormed m)
    (hnew : ∀ name ∈ ModuleSource.module_name m, ∀ m' ∈ modules,
      ModuleSource.module_name m' ≠ some name) :
    ((builtin_names ++ ModuleSource.defined_names m).Nodup → ∃ ctx' defined',
      PassSymbols.parse (fed m) ctx = .ok (scanned modules.length m, ctx') ∧
      Scanned ctx' (modules ++ [m]) defined') ∧
    (¬ (builtin_names ++ ModuleSource.defined_names m).Nodup → ∃ message,
      PassSymbols.parse (fed m) ctx = .error (.parseError message)) := by
  let n := modules.length
  let ctx₀ : PassCtx := ⟨{ ctx.heap with
    protocol_descriptions := ctx.heap.protocol_descriptions ++ [⟨[], [], []⟩] }, ctx.symbols⟩
  have hroot : ctx.heap.protocol_descriptions.length = n := h.roots
  have hlookup : ∀ name ∈ ModuleSource.module_names m, ctx.symbols.module_lookup name = none := by
    intro name hn
    rw [module_name_eq_some hw.module] at hn
    cases hl : ctx.symbols.module_lookup name
    case none => rfl
    case some i =>
      obtain ⟨m', hi, hm'⟩ := (h.module name i).mp hl
      exact absurd hm' (hnew name hn m' (List.mem_of_getElem? hi))
  have hadmits : Admits .new ctx₀ m := ⟨hw.module, hw.version, hlookup⟩
  obtain ⟨pass, ctx₁, he₁, hs₁⟩ := visit_ranges_ok n m hw.ranges hadmits
  obtain ⟨new, hsymbols, hdefined⟩ := hs₁.symbols
  have hsymbols : pass.symbols = new := hsymbols
  subst hsymbols
  have hscopes₁ : Scopes ctx₁.symbols n fun i => defined i ++ [] :=
    ⟨by rw [hs₁.scopes]; exact h.scopes.global, fun i hi => by rw [hs₁.scopes]; exact h.scopes.module i hi⟩
  let symbols := Function.update (fun i => defined i ++ []) n []
  have hscopes₂ : Scopes (ctx₁.symbols.insert_scope (some .global) (.module n)) (n + 1) symbols :=
    hscopes₁.insert_module
  have hself : symbols n = [] := Function.update_self ..
  have htaken : taken (symbols n) = builtin_names := by
    rw [hself, taken, List.append_nil, builtin_symbols_names]
  have hnodup : (taken (symbols n)).Nodup := by
    rw [htaken]
    decide
  have hvariants : ∀ symbol ∈ pass.symbols, ∃ definition, symbol.variant = .definition definition := by
    intro symbol hm
    obtain ⟨_, _, hd⟩ := exists_of_mem_left hdefined hm
    obtain ⟨definition, _, hv, _⟩ := hd.variant
    exact ⟨definition, hv⟩
  let ctx₁' : PassCtx := ⟨ctx₁.heap, ctx₁.symbols.insert_scope (some .global) (.module n)⟩
  have hinserts : Inserts ctx₁' (n + 1) symbols n pass.symbols
      (PassSymbols.insert_symbols (.module n) pass.symbols ctx₁') :=
    insert_symbols_inserts (Nat.lt_succ_self n) pass.symbols hvariants hscopes₂ hnodup
  have htaken' : taken (symbols n ++ pass.symbols) = builtin_names ++ ModuleSource.defined_names m := by
    rw [taken_append, htaken, Defined.names hdefined]
  have hempty : (fed m).ranges.isEmpty = false := by
    have := hw.nonempty
    cases m
    case nil => exact absurd rfl this
    case cons => rfl
  have hparse : PassSymbols.parse (fed m) ctx =
      PassSymbols.insert_symbols (.module n) pass.symbols ctx₁' >>= fun ctx₂ =>
      .ok (scanned n m, ⟨{ ctx₂.heap with
        protocol_descriptions := ctx₂.heap.protocol_descriptions.modify n fun root =>
          { root with
            pragmas := root.pragmas ++ pass.pragmas
            definitions := root.definitions ++ pass.definitions } }, ctx₂.symbols⟩) := by
    unfold PassSymbols.parse
    rw [hempty, hroot]
    simp only [Bool.false_eq_true, if_false]
    rw [show (fed m).ranges = m.map RangeSource.range from rfl, he₁]
    rfl
  rw [hparse]
  constructor
  case left =>
    intro hn
    obtain ⟨ctx₂, he₂, hc₂, hscopes₃⟩ := hinserts.ok (by rw [htaken']; exact hn)
    rw [he₂]
    refine ⟨_, Function.update defined n pass.symbols, rfl, ?_⟩
    have hdefs : ctx.heap.definitions <+: ctx₂.heap.definitions := by
      rw [hc₂.definitions]
      exact hs₁.definitions
    constructor
    case scopes =>
      have hupdate : Function.update symbols n (symbols n ++ pass.symbols) =
          fun i => Function.update defined n pass.symbols i ++ [] := by
        funext i
        by_cases hi : i = n
        · subst hi
          simp [hself]
        · simp [symbols, hi]
      rw [List.length_append, List.length_singleton, ← hupdate]
      exact hscopes₃
    case roots =>
      have := hc₂.roots
      simp only [List.length_modify, List.length_append, List.length_singleton]
      rw [this, hs₁.roots]
      simp [ctx₀, hroot, n]
    case builtin =>
      exact h.builtin.imp fun _ _ hs => hs.mono hdefs (List.prefix_append _ _)
    case defined =>
      intro i m' hi
      obtain hi | ⟨hin, he⟩ := getElem?_concat_cases hi
      · have hin : i ≠ n := Nat.ne_of_lt (List.getElem?_eq_some_iff.mp hi).1
        rw [Function.update_of_ne hin]
        exact (h.defined i m' hi).imp fun _ _ hd => hd.mono hdefs
      · subst hin he
        rw [Function.update_self]
        exact hc₂.definitions ▸ hdefined
    case imported => exact fun _ _ hm => by cases hm
    case module =>
      intro name i
      have hl : ctx₂.symbols.module_lookup name = _ := (congrFun hc₂.modules name).trans (hs₁.module name)
      simp only [hl]
      split
      case isTrue hm =>
        rw [module_name_eq_some hw.module] at hm
        constructor
        · intro he
          cases he
          exact ⟨m, by simp [n], hm⟩
        · rintro ⟨m', hi, hm'⟩
          obtain hi | ⟨hin, _⟩ := getElem?_concat_cases hi
          · exact absurd hm' (hnew name hm m' (List.mem_of_getElem? hi))
          · rw [hin]
      case isFalse hm =>
        rw [module_name_eq_some hw.module] at hm
        refine (h.module name i).trans ⟨?_, ?_⟩ <;> rintro ⟨m', hi, hm'⟩
        · exact ⟨m', getElem?_of_prefix (List.prefix_append _ _) hi, hm'⟩
        · obtain hi | ⟨_, he⟩ := getElem?_concat_cases hi
          · exact ⟨m', hi, hm'⟩
          · exact absurd (he ▸ hm') hm
  case right =>
    intro hn
    obtain ⟨message, he⟩ := hinserts.error (by rw [htaken']; exact hn)
    exact ⟨message, by rw [he]; rfl⟩

end

end Reowolf.Parser
