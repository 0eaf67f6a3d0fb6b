import Reowolf.Parser.ImportResolution

namespace Reowolf.Parser

-- What an import is to do to the tables: the names that it makes visible are added to those of the
-- module, if all of them are new there.
structure Imports (ctx : PassCtx) (modules : List ModuleSource) (defined imported : RootId → List Symbol)
    (i : RootId) (shown : Option (List (Identifier × Entity))) (result : Except Failure PassCtx) :
    Prop where
  ok : ∀ s, shown = some s → (taken (defined i ++ imported i) ++ s.map Prod.fst).Nodup →
    ∃ ctx' new, result = .ok ctx' ∧ ctx'.heap.definitions = ctx.heap.definitions ∧
      List.Forall₂ (Shows ctx.heap.definitions modules) new s ∧
      Tables ctx' modules defined (Function.update imported i (imported i ++ new))
  error : (∀ s, shown = some s → ¬ (taken (defined i ++ imported i) ++ s.map Prod.fst).Nodup) →
    ∃ message, result = .error (.parseError message)

section

variable {ctx ctx' : PassCtx} {modules : List ModuleSource}
  {defined imported imported' : RootId → List Symbol} {i j : RootId} {m target : ModuleSource}

theorem Tables.with_imported (h : Tables ctx modules defined imported) (hc : SameHeap ctx ctx')
    (hs : Scopes ctx'.symbols modules.length fun i => defined i ++ imported' i)
    (hi : ∀ i, ∀ symbol ∈ imported' i, Imported symbol) : Tables ctx' modules defined imported' where
  scopes := hs
  roots := hc.roots.trans h.roots
  builtin := hc.definitions ▸ h.builtin
  defined := hc.definitions ▸ h.defined
  imported := hi
  module := hc.modules ▸ h.module

theorem Shows.names {definitions : List ReservedDefinition} {new : List Symbol}
    {s : List (Identifier × Entity)} (h : List.Forall₂ (Shows definitions modules) new s) :
    new.map Symbol.name = s.map Prod.fst := by
  induction h
  case nil => rfl
  case cons hs _ ih => rw [List.map_cons, List.map_cons, hs.name, ih]

theorem Inserts.imports (h : Tables ctx modules defined imported) {ctx₀ : PassCtx}
    (hc : SameHeap ctx ctx₀) {new : List Symbol} {s : List (Identifier × Entity)}
    {result : Except Failure PassCtx}
    (hr : Inserts ctx₀ modules.length (fun i => defined i ++ imported i) i new result)
    (hs : List.Forall₂ (Shows ctx.heap.definitions modules) new s)
    (hi : ∀ symbol ∈ new, Imported symbol) :
    Imports ctx modules defined imported i (some s) result := by
  have htaken : taken (defined i ++ imported i ++ new) =
      taken (defined i ++ imported i) ++ s.map Prod.fst := by
    rw [taken_append, Shows.names hs]
  constructor
  case ok =>
    intro s' hs' hn
    cases hs'
    obtain ⟨ctx', he, hc', hscopes⟩ := hr.ok (by rw [htaken]; exact hn)
    refine ⟨ctx', new, he, hc'.definitions.trans hc.definitions, hs,
      h.with_imported (hc.trans hc') ?_ fun k symbol hm => ?_⟩
    · have hupdate : Function.update (fun i => defined i ++ imported i) i
          (defined i ++ imported i ++ new) =
          fun k => defined k ++ Function.update imported i (imported i ++ new) k := by
        funext k
        by_cases hk : k = i
        · subst hk
          simp
        · simp [hk]
      exact hupdate ▸ hscopes
    · by_cases hk : k = i
      · subst hk
        rw [Function.update_self] at hm
        exact (List.mem_append.mp hm).elim (h.imported k symbol) (hi symbol)
      · rw [Function.update_of_ne hk] at hm
        exact h.imported k symbol hm
  case error =>
    intro hn
    exact hr.error (by rw [htaken]; exact hn s rfl)

theorem Imports.of_error {message : String} {result : Except Failure PassCtx}
    (h : result = .error (.parseError message)) :
    Imports ctx modules defined imported i none result where
  ok _ hs := by cases hs
  error _ := ⟨message, h⟩

-- A single symbol is inserted like a list of one.
theorem insert_symbol_inserts (h : Scopes ctx.symbols modules.length defined) (hi : i < modules.length)
    (hn : (taken (defined i)).Nodup) (symbol : Symbol) :
    Inserts ctx modules.length defined i [symbol] (ctx.insert_symbol (.module i) symbol) := by
  have hcons : Inserts ctx modules.length defined i [symbol]
      (ctx.insert_symbol (.module i) symbol >>= Except.ok) :=
    .cons (.refl ctx) h hi hn fun ctx' _ h' hn' => .nil h' (by simpa using hn')
  match he : ctx.insert_symbol (.module i) symbol with
  | .ok _ | .error _ =>
    rw [he] at hcons
    exact hcons

theorem imported_into_imported (name : Identifier) (definition : SymbolDefinition)
    (import_id : ImportId) : Imported ⟨name, .definition (definition.into_imported import_id)⟩ :=
  rfl

-- The symbols that a star stands for, and what they show when they are imported.
theorem Tables.star_found (hj : modules[j]? = some target) (import_id : ImportId)
    {symbols : List Symbol} {names : List Identifier}
    (h : List.Forall₂ (Defined ctx.heap.definitions j) symbols names) :
    ∃ found : List (Identifier × SymbolDefinition),
      symbols = found.map (fun symbol => ⟨symbol.1, .definition symbol.2⟩) ∧
      List.Forall₂ (Shows ctx.heap.definitions modules)
        (found.map fun symbol => ⟨symbol.1, .definition (symbol.2.into_imported import_id)⟩)
        (names.map fun name => (name, .definition target name)) := by
  induction h
  case nil => exact ⟨[], rfl, .nil⟩
  case cons symbol name symbols names hd _ ih =>
    obtain ⟨found, he, hs⟩ := ih
    obtain ⟨definition, hv, hshows⟩ := Tables.shows_definition hj hd
    refine ⟨(name, definition) :: found, ?_, .cons (hshows import_id name) hs⟩
    rw [List.map_cons, ← he, ← hd.same, ← hv]

-- An import of a module that there is.
theorem Tables.resolve_source (h : Tables ctx modules defined imported) (hi : i < modules.length)
    (hj : modules[j]? = some target) (hn : (taken (defined i ++ imported i)).Nodup)
    {source : ImportSource} (hf : find_module modules source.module_name.text = some target) :
    Imports ctx modules defined imported i (source.shown modules)
      (resolve_source i ctx j source) := by
  have hinserts : ∀ import_ symbol, Inserts (PassImport.alloc_import ctx import_) modules.length
      (fun i => defined i ++ imported i) i [symbol]
      ((PassImport.alloc_import ctx import_).insert_symbol (.module i) symbol) :=
    fun import_ symbol =>
      have h₀ : Scopes (PassImport.alloc_import ctx import_).symbols modules.length
          fun i => defined i ++ imported i := h.scopes
      insert_symbol_inserts h₀ hi hn symbol
  unfold ImportSource.shown
  rw [hf]
  cases source
  case module name «alias» =>
    refine Inserts.imports h (.alloc_import ctx _) (hinserts _ _) (.cons ⟨rfl, ?_⟩ .nil) ?_
    · simp [entity_of, hj]
    · simp [Imported]
  case symbol name item =>
    cases hs : item.shown target
    case some shown =>
      obtain ⟨found, hfound, hshows⟩ := h.find_item_ok hj name.text hs
      simp only [Reowolf.Parser.resolve_source, ImportSource.module_name, hfound]
      have hmapM : [item].mapM (ImportItem.shown target) = some [shown] := by
        rw [List.mapM_cons, hs]
        rfl
      simp only [bind, Option.bind, hmapM]
      refine Inserts.imports h (.alloc_import ctx _) (hinserts _ _) (.cons (hshows _) .nil) ?_
      simp [Imported, imported_symbol, SymbolDefinition.into_imported]
    case none =>
      obtain ⟨message, he⟩ := h.find_item_error hj name.text hs
      have hmapM : [item].mapM (ImportItem.shown target) = none := by
        rw [List.mapM_cons, hs]
        rfl
      simp only [bind, Option.bind, hmapM]
      refine Imports.of_error (?_ : _ = Except.error (Failure.parseError message))
      simp only [Reowolf.Parser.resolve_source, ImportSource.module_name, he]
      rfl
  case symbols name items =>
    simp only [bind, Option.bind]
    cases hs : items.mapM (ImportItem.shown target)
    case some shown =>
      obtain ⟨found, hfound, hshows⟩ := h.find_items_ok hj name.text ctx.heap.imports.length hs
      simp only [Reowolf.Parser.resolve_source, ImportSource.module_name, hfound]
      refine Inserts.imports h (.alloc_import ctx _) (insert_found_inserts hi _ found h.scopes hn)
        hshows fun symbol hm => ?_
      obtain ⟨_, _, he⟩ := List.mem_map.mp hm
      rw [← he]
      exact imported_into_imported ..
    case none =>
      obtain ⟨message, he⟩ := h.find_items_error hj name.text hs
      refine Imports.of_error (?_ : _ = Except.error (Failure.parseError message))
      simp only [Reowolf.Parser.resolve_source, ImportSource.module_name, he]
      rfl
  case star name =>
    obtain ⟨found, he, hshows⟩ :=
      Tables.star_found hj ctx.heap.imports.length (h.defined j target hj)
    simp only [Reowolf.Parser.resolve_source, h.all_defined hj, Option.getD_some, he]
    refine Inserts.imports h (.alloc_import ctx _) (insert_scoped_inserts hi _ found h.scopes hn)
      hshows fun symbol hm => ?_
    obtain ⟨_, _, he⟩ := List.mem_map.mp hm
    rw [← he]
    exact imported_into_imported ..

-- The table of modules finds a module by its name.
theorem Tables.find_module (h : Tables ctx modules defined imported) (name : Identifier) :
    match ctx.symbols.get_module_by_name name with
    | none => find_module modules name = none
    | some j => ∃ target, modules[j]? = some target ∧ find_module modules name = some target := by
  unfold SymbolTable.get_module_by_name Reowolf.Parser.find_module
  match hl : ctx.symbols.module_lookup name with
  | none =>
    simp only [List.find?_eq_none, decide_eq_true_eq]
    intro m hm hname
    obtain ⟨k, hk⟩ := List.mem_iff_getElem?.mp hm
    have := (h.module name k).mpr ⟨m, hk, hname⟩
    rw [hl] at this
    cases this
  | some j =>
    obtain ⟨target, hj, hname⟩ := (h.module name j).mp hl
    refine ⟨target, hj, ?_⟩
    have hsome : (modules.find? fun m => decide (ModuleSource.module_name m = some name)).isSome :=
      List.find?_isSome.mpr ⟨target, List.mem_of_getElem? hj, decide_eq_true hname⟩
    obtain ⟨m, hm⟩ := Option.isSome_iff_exists.mp hsome
    obtain ⟨k, hk⟩ := List.mem_iff_getElem?.mp (List.mem_of_find?_eq_some hm)
    have hk' := (h.module name k).mpr ⟨m, hk, by simpa using List.find?_some hm⟩
    rw [hl] at hk'
    cases hk'
    rw [hm, ← hk, hj]

theorem Tables.visit_import_range (h : Tables ctx modules defined imported) (hi : i < modules.length)
    (hn : (taken (defined i ++ imported i)).Nodup) {source : ImportSource} (hw : source.WellFormed) :
    Imports ctx modules defined imported i (source.shown modules)
      ((PassImport.visit_import_range i ctx source.tokens).map Prod.snd) := by
  rw [visit_import_range_tokens i ctx hw]
  have hfind := h.find_module source.module_name.text
  match hl : ctx.symbols.get_module_by_name source.module_name.text with
  | none =>
    rw [hl] at hfind
    have hs : source.shown modules = none := by
      simp only [ImportSource.shown]
      rw [hfind]
      rfl
    rw [hs]
    exact .of_error rfl
  | some j =>
    rw [hl] at hfind
    obtain ⟨target, hj, hf⟩ := hfind
    have hresolve := h.resolve_source hi hj hn hf
    simp only []
    match hr : Reowolf.Parser.resolve_source i ctx j source with
    | .ok _ | .error _ =>
      rw [hr] at hresolve
      exact hresolve

-- Nothing is imported.
theorem Imports.nil (h : Tables ctx modules defined imported)
    (hn : (taken (defined i ++ imported i)).Nodup) :
    Imports ctx modules defined imported i (some []) (.ok ctx) where
  ok s hs _ := by
    cases hs
    exact ⟨ctx, [], rfl, rfl, .nil, by simpa using h⟩
  error he := absurd (by simpa using hn) (he [] rfl)

-- What follows an import adds to what it shows.
theorem Imports.append {shown rest : Option (List (Identifier × Entity))}
    {result : Except Failure PassCtx} {next : PassCtx → Except Failure PassCtx}
    (h : Imports ctx modules defined imported i shown result)
    (hnext : ∀ ctx' new, Tables ctx' modules defined (Function.update imported i (imported i ++ new)) →
      (taken (defined i ++ (imported i ++ new))).Nodup →
      Imports ctx' modules defined (Function.update imported i (imported i ++ new)) i rest (next ctx')) :
    Imports ctx modules defined imported i
      (shown.bind fun s => rest.bind fun s' => some (s ++ s')) (result >>= next) := by
  have htaken : ∀ {new : List Symbol} {s : List (Identifier × Entity)},
      List.Forall₂ (Shows ctx.heap.definitions modules) new s →
      taken (defined i ++ (imported i ++ new)) = taken (defined i ++ imported i) ++ s.map Prod.fst := by
    intro new s hs
    rw [← List.append_assoc, taken_append, Shows.names hs]
  constructor
  case ok =>
    intro s hs hn
    obtain ⟨s₁, hs₁, hs⟩ := Option.bind_eq_some_iff.mp hs
    obtain ⟨s₂, hs₂, hs⟩ := Option.bind_eq_some_iff.mp hs
    cases hs
    rw [List.map_append, ← List.append_assoc] at hn
    obtain ⟨ctx₁, new₁, he₁, hd₁, hf₁, ht₁⟩ := h.ok s₁ hs₁ (List.nodup_append.mp hn).1
    have hn₁ : (taken (defined i ++ (imported i ++ new₁))).Nodup :=
      htaken hf₁ ▸ (List.nodup_append.mp hn).1
    obtain ⟨ctx₂, new₂, he₂, hd₂, hf₂, ht₂⟩ := (hnext ctx₁ new₁ ht₁ hn₁).ok s₂ hs₂ (by
      rwa [Function.update_self, htaken hf₁])
    refine ⟨ctx₂, new₁ ++ new₂, by rw [he₁]; exact he₂, hd₂.trans hd₁,
      List.rel_append hf₁ (hd₁ ▸ hf₂), ?_⟩
    simpa [Function.update_idem] using ht₂
  case error =>
    intro hs
    match hs₁ : shown with
    | none =>
      obtain ⟨message, he⟩ := h.error fun s hs => by cases hs
      exact ⟨message, by rw [he]; rfl⟩
    | some s₁ =>
      by_cases hn₁ : (taken (defined i ++ imported i) ++ s₁.map Prod.fst).Nodup
      · obtain ⟨ctx₁, new₁, he₁, _, hf₁, ht₁⟩ := h.ok s₁ rfl hn₁
        obtain ⟨message, he⟩ := (hnext ctx₁ new₁ ht₁ (htaken hf₁ ▸ hn₁)).error fun s₂ hs₂ hn => by
          refine hs (s₁ ++ s₂) (by rw [hs₂]; rfl) ?_
          rwa [Function.update_self, htaken hf₁, List.append_assoc, ← List.map_append] at hn
        exact ⟨message, by rw [he₁]; exact he⟩
      · obtain ⟨message, he⟩ := h.error fun s hs => by
          cases hs
          exact hn₁
        exact ⟨message, by rw [he]; rfl⟩

-- The imports of a module, one after the other.
theorem Tables.visit_ranges (hi : i < modules.length) (ranges : List RangeSource)
    (hw : ∀ range ∈ ranges, range.WellFormed) (h : Tables ctx modules defined imported)
    (hn : (taken (defined i ++ imported i)).Nodup) :
    Imports ctx modules defined imported i (shown_by_imports modules ranges)
      ((PassImport.visit_ranges i (ranges.map RangeSource.range) ctx).map Prod.snd) := by
  induction ranges generalizing ctx imported
  case nil => exact .nil h hn
  case cons range ranges ih =>
    obtain ⟨hr, hrest⟩ := List.forall_mem_cons.mp hw
    cases range
    case «import» source =>
      have hnext : ∀ ctx' new,
          Tables ctx' modules defined (Function.update imported i (imported i ++ new)) →
          (taken (defined i ++ (imported i ++ new))).Nodup →
          Imports ctx' modules defined (Function.update imported i (imported i ++ new)) i
            (shown_by_imports modules ranges)
            ((PassImport.visit_ranges i (ranges.map RangeSource.range) ctx').map Prod.snd) :=
        fun ctx' new h' hn' => ih hrest h' (by simpa using hn')
      have happend := (h.visit_import_range hi hn hr).append hnext
      have heq : (PassImport.visit_ranges i ((RangeSource.import source :: ranges).map
            RangeSource.range) ctx).map Prod.snd =
          (PassImport.visit_import_range i ctx source.tokens).map Prod.snd >>= fun ctx' =>
            (PassImport.visit_ranges i (ranges.map RangeSource.range) ctx').map Prod.snd := by
        simp only [List.map_cons, PassImport.visit_ranges, RangeSource.range, if_true]
        cases PassImport.visit_import_range i ctx source.tokens
        case error => rfl
        case ok result =>
          obtain ⟨import_id, ctx'⟩ := result
          simp only [bind, Except.bind, Except.map]
          cases PassImport.visit_ranges i (ranges.map RangeSource.range) ctx' <;> rfl
      rw [heq]
      exact happend
    case module | version | definition | code => exact ih hrest h hn

end

end Reowolf.Parser
