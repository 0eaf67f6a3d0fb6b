import Reowolf.Parser.ImportEffects
import Reowolf.Parser.SymbolScan
import Mathlib.Data.List.Pairwise

namespace Reowolf.Parser

-- Two modules that do not go by the same name.
def Apart (m m' : ModuleSource) : Prop :=
  ∀ name, ModuleSource.module_name m = some name → ModuleSource.module_name m' ≠ some name

instance : Std.Symm Apart := ⟨fun _ _ h name hm' hm => h name hm hm'⟩

def DistinctNames (modules : List ModuleSource) : Prop := modules.Pairwise Apart

-- The imports of a module name what there is, and no name is made visible twice.
def Resolvable (modules : List ModuleSource) (m : ModuleSource) : Prop :=
  ∃ names, visible modules m = some names ∧ (names.map Prod.fst).Nodup

def scanned_from : RootId → List ModuleSource → List Module
  | _, [] => []
  | root_id, m :: modules => scanned root_id m :: scanned_from (root_id + 1) modules

section

variable {ctx ctx' : PassCtx} {modules : List ModuleSource}
  {defined imported : RootId → List Symbol} {i : RootId} {m : ModuleSource}

theorem names_visible {shown : List (Identifier × Entity)} :
    (builtin_entities ++ (defined_entities m ++ shown)).map Prod.fst =
      builtin_names ++ (ModuleSource.defined_names m ++ shown.map Prod.fst) := by
  simp [builtin_entities, defined_entities, builtin_names, Function.comp_def]

theorem Resolvable.defined_nodup (h : Resolvable modules m) :
    (builtin_names ++ ModuleSource.defined_names m).Nodup := by
  obtain ⟨names, hv, hn⟩ := h
  obtain ⟨shown, _, he⟩ := Option.map_eq_some_iff.mp hv
  rw [← he, names_visible, ← List.append_assoc] at hn
  exact (List.nodup_append.mp hn).1

-- The symbols of all modules are scanned, or two definitions of a module have one name.
theorem scan_symbols_ok (rest : List ModuleSource) {done : List ModuleSource}
    (h : Scanned ctx done defined) (hw : ∀ m ∈ rest, ModuleSource.WellFormed m)
    (hd : DistinctNames (done ++ rest)) :
    ((∀ m ∈ rest, (builtin_names ++ ModuleSource.defined_names m).Nodup) → ∃ ctx' defined',
      PassCtx.scan_symbols (rest.map fed) ctx = .ok (scanned_from done.length rest, ctx') ∧
      Scanned ctx' (done ++ rest) defined') ∧
    (¬ (∀ m ∈ rest, (builtin_names ++ ModuleSource.defined_names m).Nodup) → ∃ message,
      PassCtx.scan_symbols (rest.map fed) ctx = .error (.parseError message)) := by
  induction rest generalizing ctx done defined
  case nil =>
    refine ⟨fun _ => ⟨ctx, defined, rfl, by simpa using h⟩, fun hn => absurd ?_ hn⟩
    simp
  case cons m rest ih =>
    obtain ⟨hm, hw⟩ := List.forall_mem_cons.mp hw
    have hnew : ∀ name ∈ ModuleSource.module_name m, ∀ m' ∈ done,
        ModuleSource.module_name m' ≠ some name := by
      intro name hname m' hm' he
      exact (List.pairwise_append.mp hd).2.2 m' hm' m List.mem_cons_self name he hname
    obtain ⟨hok, herror⟩ := Scanned.parse h hm hnew
    simp only [List.map_cons, PassCtx.scan_symbols, List.forall_mem_cons]
    by_cases hn : (builtin_names ++ ModuleSource.defined_names m).Nodup
    · obtain ⟨ctx₁, defined₁, he₁, h₁⟩ := hok hn
      have hd₁ : DistinctNames (done ++ [m] ++ rest) := by simpa using hd
      obtain ⟨hok', herror'⟩ := ih h₁ hw hd₁
      rw [List.length_append, List.length_singleton] at hok'
      constructor
      · rintro ⟨_, hrest⟩
        obtain ⟨ctx', defined', he', h'⟩ := hok' hrest
        refine ⟨ctx', defined', ?_, by simpa using h'⟩
        exact Except.bind_eq_ok.mpr ⟨_, he₁, Except.bind_eq_ok.mpr ⟨_, he', rfl⟩⟩
      · intro hrest
        obtain ⟨message, he'⟩ := herror' fun hr => hrest ⟨hn, hr⟩
        exact ⟨message, by rw [he₁]; simp [bind, Except.bind, he']⟩
    · obtain ⟨message, he⟩ := herror hn
      refine ⟨fun hr => absurd hr.1 hn, fun _ => ⟨message, ?_⟩⟩
      rw [he]
      rfl

-- What a module shows once its imports have been resolved.
def Resolved (ctx : PassCtx) (modules : List ModuleSource) (imported : RootId → List Symbol)
    (i : RootId) (m : ModuleSource) : Prop :=
  ∃ shown, shown_by_imports modules m = some shown ∧
    List.Forall₂ (Shows ctx.heap.definitions modules) (imported i) shown

-- The imports of one module are resolved.
theorem Tables.parse_imports (h : Tables ctx modules defined imported) (hi : modules[i]? = some m)
    (hnone : imported i = []) (hw : ModuleSource.WellFormed m)
    (hn : (builtin_names ++ ModuleSource.defined_names m).Nodup) :
    (Resolvable modules m → ∃ ctx' new, PassImport.parse (scanned i m) ctx = .ok ctx' ∧
      ctx'.heap.definitions = ctx.heap.definitions ∧
      Tables ctx' modules defined (Function.update imported i new) ∧
      Resolved ctx' modules (Function.update imported i new) i m) ∧
    (¬ Resolvable modules m → ∃ message,
      PassImport.parse (scanned i m) ctx = .error (.parseError message)) := by
  have htaken : taken (defined i ++ imported i) = builtin_names ++ ModuleSource.defined_names m := by
    rw [hnone, List.append_nil, taken, List.map_append, builtin_symbols_names,
      Defined.names (h.defined i m hi)]
  have himports := h.visit_ranges (Tables.lt hi) m hw.ranges (htaken ▸ hn)
  have hparse : PassImport.parse (scanned i m) ctx =
      (PassImport.visit_ranges i (m.map RangeSource.range) ctx) >>= fun result =>
        .ok ⟨{ result.2.heap with
          protocol_descriptions := result.2.heap.protocol_descriptions.modify i fun root =>
            { root with imports := root.imports ++ result.1 } }, result.2.symbols⟩ := by
    have hempty : (m.map RangeSource.range).isEmpty = false := by
      have := hw.nonempty
      cases m
      case nil => exact absurd rfl this
      case cons => rfl
    simp only [PassImport.parse, scanned, hempty, Bool.false_eq_true, if_false]
  constructor
  case left =>
    rintro ⟨names, hv, hnodup⟩
    obtain ⟨shown, hs, he⟩ := Option.map_eq_some_iff.mp hv
    rw [← he, names_visible, ← List.append_assoc, ← htaken] at hnodup
    obtain ⟨ctx₁, new, he₁, hd₁, hf₁, h₁⟩ := himports.ok shown hs hnodup
    cases hr : PassImport.visit_ranges i (m.map RangeSource.range) ctx
    case error =>
      rw [hr] at he₁
      cases he₁
    case ok visited =>
      obtain ⟨imports, ctx₂⟩ := visited
      rw [hr] at he₁
      cases he₁
      rw [hnone, List.nil_append] at h₁
      let ctx₃ : PassCtx := ⟨{ ctx₂.heap with
        protocol_descriptions := ctx₂.heap.protocol_descriptions.modify i fun root =>
          { root with imports := root.imports ++ imports } }, ctx₂.symbols⟩
      have hsame : SameHeap ctx₂ ctx₃ := ⟨rfl, List.length_modify .., rfl⟩
      refine ⟨ctx₃, new, by rw [hparse, hr]; rfl, hd₁, ?_, shown, hs, ?_⟩
      · exact h₁.with_imported hsame h₁.scopes h₁.imported
      · rw [Function.update_self]
        exact hd₁ ▸ hf₁
  case right =>
    intro hnot
    obtain ⟨message, he⟩ := himports.error fun shown hs hnodup => by
      refine hnot ⟨_, Option.map_eq_some_iff.mpr ⟨shown, hs, rfl⟩, ?_⟩
      rwa [names_visible, ← List.append_assoc, ← htaken]
    cases hr : PassImport.visit_ranges i (m.map RangeSource.range) ctx
    case ok =>
      rw [hr] at he
      cases he
    case error e =>
      rw [hr] at he
      have he : e = .parseError message := Except.error.inj he
      exact ⟨message, by rw [hparse, hr, he]; rfl⟩

-- The imports of the modules are resolved one after the other, as each of them is on its own.
theorem resolve_imports_ok (rest : List ModuleSource) {done : List ModuleSource}
    (hsplit : modules = done ++ rest) (h : Tables ctx modules defined imported)
    (hnone : ∀ i, done.length ≤ i → imported i = [])
    (hdone : ∀ i m, done[i]? = some m → Resolved ctx modules imported i m)
    (hw : ∀ m ∈ rest, ModuleSource.WellFormed m)
    (hn : ∀ m ∈ rest, (builtin_names ++ ModuleSource.defined_names m).Nodup) :
    ((∀ m ∈ rest, Resolvable modules m) → ∃ ctx' imported',
      PassCtx.resolve_imports (scanned_from done.length rest) ctx = .ok ctx' ∧
      Tables ctx' modules defined imported' ∧
      ∀ i m, modules[i]? = some m → Resolved ctx' modules imported' i m) ∧
    (¬ (∀ m ∈ rest, Resolvable modules m) → ∃ message,
      PassCtx.resolve_imports (scanned_from done.length rest) ctx = .error (.parseError message)) := by
  induction rest generalizing ctx done imported
  case nil =>
    rw [List.append_nil] at hsplit
    subst hsplit
    exact ⟨fun _ => ⟨ctx, imported, rfl, h, hdone⟩, fun hr => absurd (by simp) hr⟩
  case cons m rest ih =>
    obtain ⟨hm, hw⟩ := List.forall_mem_cons.mp hw
    obtain ⟨hnm, hn⟩ := List.forall_mem_cons.mp hn
    have hi : modules[done.length]? = some m := by simp [hsplit]
    obtain ⟨hok, herror⟩ := h.parse_imports hi (hnone _ (Nat.le_refl _)) hm hnm
    simp only [scanned_from, PassCtx.resolve_imports, List.forall_mem_cons]
    by_cases hres : Resolvable modules m
    · obtain ⟨ctx₁, new, he₁, hd₁, h₁, hres₁⟩ := hok hres
      have hnone₁ : ∀ i, (done ++ [m]).length ≤ i →
          Function.update imported done.length new i = [] := by
        intro i hi
        rw [List.length_append, List.length_singleton] at hi
        rw [Function.update_of_ne (Nat.ne_of_gt hi)]
        exact hnone i (Nat.le_of_succ_le hi)
      have hdone₁ : ∀ i m', (done ++ [m])[i]? = some m' →
          Resolved ctx₁ modules (Function.update imported done.length new) i m' := by
        intro i m' hi
        match getElem?_concat_cases hi with
        | .inl hi =>
          have hne : i ≠ done.length := Nat.ne_of_lt (List.getElem?_eq_some_iff.mp hi).1
          obtain ⟨shown, hs, hf⟩ := hdone i m' hi
          exact ⟨shown, hs, by rw [Function.update_of_ne hne]; exact hd₁ ▸ hf⟩
        | .inr ⟨hi, he⟩ =>
          subst hi he
          exact hres₁
      have hsplit₁ : modules = done ++ [m] ++ rest := by simp [hsplit]
      obtain ⟨hok', herror'⟩ := ih hsplit₁ h₁ hnone₁ hdone₁ hw hn
      rw [List.length_append, List.length_singleton] at hok' herror'
      constructor
      · rintro ⟨_, hrest⟩
        obtain ⟨ctx', imported', he', h'⟩ := hok' hrest
        exact ⟨ctx', imported', by rw [he₁]; exact he', h'⟩
      · intro hrest
        obtain ⟨message, he'⟩ := herror' fun hr => hrest ⟨hres, hr⟩
        exact ⟨message, by rw [he₁]; exact he'⟩
    · obtain ⟨message, he⟩ := herror hres
      exact ⟨fun hr => absurd hr.1 hres, fun _ => ⟨message, by rw [he]; rfl⟩⟩

-- Before any module is scanned there are the functions of the compiler.
theorem Scanned.new : Scanned .new [] fun _ => [] where
  scopes := ⟨rfl, fun i hi => by cases hi⟩
  roots := rfl
  builtin := .cons ⟨rfl, rfl⟩ (.cons ⟨rfl, rfl⟩ (.cons ⟨rfl, rfl⟩ (.cons ⟨rfl, rfl⟩
    (.cons ⟨rfl, rfl⟩ (.cons ⟨rfl, rfl⟩ .nil)))))
  defined i m hi := by cases hi
  imported i symbol hm := by cases hm
  module name i := by
    constructor
    · intro h
      cases h
    · rintro ⟨m, hi, _⟩
      cases hi

end

-- The modules in the order in which they are fed are accepted.
def Accepted (modules : List ModuleSource) : Prop :=
  ∃ ctx, PassCtx.parse_modules (modules.map (List.map RangeSource.range)) = .ok ctx

-- A name stands for something in a module, once all modules are parsed.
def Resolves (modules : List ModuleSource) (m : ModuleSource) (name : Identifier) (entity : Entity) :
    Prop :=
  ∃ ctx i, PassCtx.parse_modules (modules.map (List.map RangeSource.range)) = .ok ctx ∧
    modules[i]? = some m ∧
    (ctx.symbols.get_symbol_by_name (.module i) name).bind
      (entity_of ctx.heap.definitions modules) = some entity

section

variable {ctx : PassCtx} {modules modules' : List ModuleSource}
  {defined imported : RootId → List Symbol} {i : RootId} {m : ModuleSource}

theorem parse_modules_ok (hw : ∀ m ∈ modules, ModuleSource.WellFormed m)
    (hd : DistinctNames modules) :
    ((∀ m ∈ modules, Resolvable modules m) → ∃ ctx defined imported,
      PassCtx.parse_modules (modules.map (List.map RangeSource.range)) = .ok ctx ∧
      Tables ctx modules defined imported ∧
      ∀ i m, modules[i]? = some m → Resolved ctx modules imported i m) ∧
    (¬ (∀ m ∈ modules, Resolvable modules m) → ∃ message,
      PassCtx.parse_modules (modules.map (List.map RangeSource.range)) =
        .error (.parseError message)) := by
  have hd : DistinctNames ([] ++ modules) := hd
  obtain ⟨hok, herror⟩ := scan_symbols_ok modules Scanned.new hw hd
  have hfed : (modules.map (List.map RangeSource.range)).map (fun ranges => (⟨ranges, none⟩ : Module)) =
      modules.map fed := by
    rw [List.map_map]
    rfl
  unfold PassCtx.parse_modules
  rw [hfed]
  by_cases hn : ∀ m ∈ modules, (builtin_names ++ ModuleSource.defined_names m).Nodup
  · obtain ⟨ctx₁, defined, he₁, h₁⟩ := hok hn
    have hdone : ∀ i m, ([] : List ModuleSource)[i]? = some m →
        Resolved ctx₁ modules (fun _ => []) i m := fun i m hi => by cases hi
    obtain ⟨hok', herror'⟩ := resolve_imports_ok modules rfl h₁ (fun _ _ => rfl) hdone hw hn
    rw [he₁]
    constructor
    · intro hres
      obtain ⟨ctx', imported', he', h'⟩ := hok' hres
      exact ⟨ctx', defined, imported', he', h'⟩
    · intro hres
      obtain ⟨message, he'⟩ := herror' hres
      exact ⟨message, he'⟩
  · obtain ⟨message, he⟩ := herror hn
    refine ⟨fun hres => absurd (fun m hm => (hres m hm).defined_nodup) hn, fun _ => ⟨message, ?_⟩⟩
    rw [he]
    rfl

-- A lookup by names that are all different finds exactly what is in the list.
theorem find_shown {definitions : List ReservedDefinition} {symbols : List Symbol}
    {shown : List (Identifier × Entity)} (h : List.Forall₂ (Shows definitions modules) symbols shown)
    (hn : (shown.map Prod.fst).Nodup) (name : Identifier) (entity : Entity) :
    (symbols.find? (·.name = name)).bind (entity_of definitions modules) = some entity ↔
      (name, entity) ∈ shown := by
  induction h
  case nil => simp
  case cons symbol shown₁ symbols shown hs hf ih =>
    rw [List.map_cons, List.nodup_cons] at hn
    rw [List.find?_cons]
    by_cases he : symbol.name = name
    · simp only [he, decide_true, Option.bind_some, hs.entity, List.mem_cons]
      have hfst : shown₁.1 = name := hs.name.symm.trans he
      constructor
      · intro hentity
        cases hentity
        exact .inl (by rw [← hfst])
      · intro hm
        cases hm
        case inl hm => rw [← hm]
        case inr hm =>
          have hmem : name ∈ shown.map Prod.fst := List.mem_map.mpr ⟨_, hm, rfl⟩
          exact absurd (hfst ▸ hmem) hn.1
    · have hfst : (name, entity) ≠ shown₁ := fun hm => he (hs.name.trans (by rw [← hm]))
      simp only [he, decide_false, List.mem_cons, hfst, false_or]
      exact ih hn.2

-- The name of a module is looked up in what is defined and imported there, and in what is built in.
theorem Tables.resolve (h : Tables ctx modules defined imported) (hi : modules[i]? = some m)
    {shown : List (Identifier × Entity)}
    (hf : List.Forall₂ (Shows ctx.heap.definitions modules) (imported i) shown)
    (hn : ((builtin_entities ++ (defined_entities m ++ shown)).map Prod.fst).Nodup)
    (name : Identifier) (entity : Entity) :
    (ctx.symbols.get_symbol_by_name (.module i) name).bind
        (entity_of ctx.heap.definitions modules) = some entity ↔
      (name, entity) ∈ builtin_entities ++ (defined_entities m ++ shown) := by
  have hdefined : List.Forall₂ (Shows ctx.heap.definitions modules) (defined i)
      (defined_entities m) := by
    refine List.forall₂_map_right_iff.mpr ((h.defined i m hi).imp fun symbol name hd => ?_)
    refine ⟨hd.same, ?_⟩
    obtain ⟨definition, reserved, hv, _, _, hr, hin, hid⟩ := hd.variant
    simp [entity_of, hv, hr, hin, hi, hid]
  have hall := List.rel_append (List.rel_append hdefined hf) h.builtin
  have hperm : (builtin_entities ++ (defined_entities m ++ shown)).Perm
      (defined_entities m ++ shown ++ builtin_entities) := List.perm_append_comm
  rw [h.scopes.get_symbol_by_name (Tables.lt hi), ← List.find?_append,
    find_shown hall ((hperm.map _).nodup_iff.mp hn), hperm.mem_iff]

theorem DistinctNames.perm (hd : DistinctNames modules) (hp : modules'.Perm modules) :
    DistinctNames modules' :=
  (hp.pairwise_iff fun h => Std.Symm.symm _ _ h).mpr hd

-- A module is found by its name in any order.
theorem find_module_perm (hd : DistinctNames modules) (hp : modules'.Perm modules) :
    find_module modules' = find_module modules := by
  have hunique : ∀ m ∈ modules, ∀ m' ∈ modules, ∀ name, ModuleSource.module_name m = some name →
      ModuleSource.module_name m' = some name → m = m' := by
    intro m hm m' hm' name he he'
    by_contra hne
    exact List.Pairwise.forall hd hm hm' hne name he he'
  funext name
  unfold find_module
  match hf : modules.find? fun m => decide (ModuleSource.module_name m = some name) with
  | none =>
    rw [List.find?_eq_none] at hf ⊢
    exact fun m hm => hf m (hp.mem_iff.mp hm)
  | some m =>
    have hname : ModuleSource.module_name m = some name := by simpa using List.find?_some hf
    have hm := List.mem_of_find?_eq_some hf
    match hf' : modules'.find? fun m => decide (ModuleSource.module_name m = some name) with
    | none =>
      rw [List.find?_eq_none] at hf'
      exact absurd (decide_eq_true hname) (hf' m (hp.mem_iff.mpr hm))
    | some m' =>
      have hname' : ModuleSource.module_name m' = some name := by simpa using List.find?_some hf'
      have hm' := hp.mem_iff.mp (List.mem_of_find?_eq_some hf')
      rw [hunique m hm m' hm' name hname hname']

theorem visible_perm (hd : DistinctNames modules) (hp : modules'.Perm modules) :
    visible modules' = visible modules := by
  funext m
  unfold visible
  congr 1
  induction m
  case nil => rfl
  case cons range ranges ih =>
    cases range
    case «import» source =>
      simp only [shown_by_imports, ImportSource.shown, find_module_perm hd hp, ih]
    case module | version | definition | code => exact ih

end

section

variable {modules modules' : List ModuleSource}

theorem accepted_iff (hw : ∀ m ∈ modules, ModuleSource.WellFormed m) (hd : DistinctNames modules) :
    Accepted modules ↔ ∀ m ∈ modules, Resolvable modules m := by
  obtain ⟨hok, herror⟩ := parse_modules_ok hw hd
  constructor
  · rintro ⟨ctx, he⟩
    by_contra hn
    obtain ⟨message, he'⟩ := herror hn
    cases he.symm.trans he'
  · intro hres
    obtain ⟨ctx, _, _, he, _⟩ := hok hres
    exact ⟨ctx, he⟩

theorem resolves_iff (hw : ∀ m ∈ modules, ModuleSource.WellFormed m) (hd : DistinctNames modules)
    (ha : Accepted modules) {m : ModuleSource} (hm : m ∈ modules) (name : Identifier)
    (entity : Entity) :
    Resolves modules m name entity ↔
      ∃ names, visible modules m = some names ∧ (name, entity) ∈ names := by
  have hres := (accepted_iff hw hd).mp ha
  obtain ⟨ctx, defined, imported, he, htables, hall⟩ := (parse_modules_ok hw hd).1 hres
  obtain ⟨names, hv, hn⟩ := hres m hm
  obtain ⟨shown, hs, hnames⟩ := Option.map_eq_some_iff.mp hv
  have hresolve : ∀ i, modules[i]? = some m →
      ((ctx.symbols.get_symbol_by_name (.module i) name).bind
        (entity_of ctx.heap.definitions modules) = some entity ↔ (name, entity) ∈ names) := by
    intro i hi
    obtain ⟨shown', hs', hf⟩ := hall i m hi
    cases hs.symm.trans hs'
    rw [← hnames] at hn ⊢
    exact htables.resolve hi hf hn name entity
  constructor
  · rintro ⟨ctx', i, he', hi, hentity⟩
    cases he.symm.trans he'
    exact ⟨names, hv, (hresolve i hi).mp hentity⟩
  · rintro ⟨names', hv', hmem⟩
    cases hv.symm.trans hv'
    obtain ⟨i, hi⟩ := List.mem_iff_getElem?.mp hm
    exact ⟨ctx, i, he, hi, (hresolve i hi).mpr hmem⟩

theorem Resolves.mem {m : ModuleSource} {name : Identifier} {entity : Entity}
    (h : Resolves modules m name entity) : Accepted modules ∧ m ∈ modules := by
  obtain ⟨ctx, _, he, hi, _⟩ := h
  exact ⟨⟨ctx, he⟩, List.mem_of_getElem? hi⟩

theorem accepted_perm (hw : ∀ m ∈ modules, ModuleSource.WellFormed m) (hd : DistinctNames modules)
    (hp : modules'.Perm modules) : Accepted modules' ↔ Accepted modules := by
  have hw' : ∀ m ∈ modules', ModuleSource.WellFormed m := fun m hm => hw m (hp.mem_iff.mp hm)
  rw [accepted_iff hw hd, accepted_iff hw' (hd.perm hp)]
  unfold Resolvable
  rw [visible_perm hd hp]
  exact forall_congr' fun m => by rw [hp.mem_iff]

theorem resolves_of_perm (hw : ∀ m ∈ modules, ModuleSource.WellFormed m) (hd : DistinctNames modules)
    (hp : modules'.Perm modules) {m : ModuleSource} {name : Identifier} {entity : Entity}
    (h : Resolves modules m name entity) : Resolves modules' m name entity := by
  obtain ⟨ha, hm⟩ := h.mem
  have hw' : ∀ m ∈ modules', ModuleSource.WellFormed m := fun m hm => hw m (hp.mem_iff.mp hm)
  have ha' := (accepted_perm hw hd hp).mpr ha
  refine (resolves_iff hw' (hd.perm hp) ha' (hp.mem_iff.mpr hm) name entity).mpr ?_
  rw [visible_perm hd hp]
  exact (resolves_iff hw hd ha hm name entity).mp h

end

-- Modules are accepted if each of them imports what there is and makes no name visible twice, the
-- names of the modules that it imports among them. A name then stands for what makes it visible. The
-- order in which the modules are fed does not matter.
theorem parse_modules_resolves (modules : List ModuleSource)
    (hw : ∀ m ∈ modules, ModuleSource.WellFormed m) (hd : DistinctNames modules) :
    (Accepted modules ↔ ∀ m ∈ modules, Resolvable modules m) ∧
    (¬ Accepted modules → ∃ message,
      PassCtx.parse_modules (modules.map (List.map RangeSource.range)) =
        .error (.parseError message)) ∧
    (Accepted modules → ∀ m ∈ modules, ∀ name entity, Resolves modules m name entity ↔
      ∃ names, visible modules m = some names ∧ (name, entity) ∈ names) ∧
    ∀ modules' : List ModuleSource, modules'.Perm modules →
      (Accepted modules' ↔ Accepted modules) ∧
      ∀ m name entity, Resolves modules' m name entity ↔ Resolves modules m name entity := by
  refine ⟨accepted_iff hw hd, fun hn => ?_, fun ha m hm name entity => ?_, fun modules' hp => ?_⟩
  · exact (parse_modules_ok hw hd).2 fun hres => hn ((accepted_iff hw hd).mpr hres)
  · exact resolves_iff hw hd ha hm name entity
  · have hw' : ∀ m ∈ modules', ModuleSource.WellFormed m := fun m hm => hw m (hp.mem_iff.mp hm)
    refine ⟨accepted_perm hw hd hp, fun m name entity => ?_⟩
    exact ⟨resolves_of_perm hw' (hd.perm hp) hp.symm, resolves_of_perm hw hd hp⟩

-- A definition that is imported under a name of its own, and once more with all that its module
-- defines.
theorem parse_modules_resolves_import :
    let a : ModuleSource := [.module ⟨"a", []⟩, .definition .struct "Foo" [] []]
    let b : ModuleSource := [.import (.symbol ⟨"a", []⟩ ⟨"Foo", some "Bar"⟩), .import (.star ⟨"a", []⟩)]
    Accepted [b, a] ∧ Resolves [b, a] b "Bar" (.definition a "Foo") ∧
      Resolves [a, b] b "Foo" (.definition a "Foo") := by
  intro a b
  have hname : DomainName.WellFormed ⟨"a", []⟩ := ⟨by decide, by simp, by decide, by decide⟩
  have ha : ModuleSource.WellFormed a := by
    refine ⟨fun range hr => ?_, by simp [a], by decide, by decide⟩
    match List.mem_cons.mp hr with
    | .inl hr => exact hr ▸ hname
    | .inr hr =>
      rw [List.mem_singleton.mp hr]
      exact ⟨by decide, by simp, by simp⟩
  have hb : ModuleSource.WellFormed b := by
    refine ⟨fun range hr => ?_, by simp [b], by decide, by decide⟩
    match List.mem_cons.mp hr with
    | .inl hr =>
      subst hr
      refine ⟨hname, fun item hi => ?_, fun _ _ he => by cases he⟩
      rw [List.mem_singleton.mp hi]
      exact ⟨by decide, by simp; decide⟩
    | .inr hr =>
      rw [List.mem_singleton.mp hr]
      exact ⟨hname, (fun _ hi => by cases hi), (fun _ _ he => by cases he)⟩
  have hw : ∀ m ∈ [b, a], ModuleSource.WellFormed m := by
    intro m hm
    match List.mem_cons.mp hm with
    | .inl hm => exact hm ▸ hb
    | .inr hm => exact List.mem_singleton.mp hm ▸ ha
  have hd : DistinctNames [b, a] := by
    refine List.pairwise_pair.mpr fun name hn => ?_
    cases hn
  obtain ⟨haccepted, _, hresolves, hperm⟩ := parse_modules_resolves [b, a] hw hd
  have hvisible : visible [b, a] b = some (builtin_entities ++
      [("Bar", .definition a "Foo"), ("Foo", .definition a "Foo")]) := by decide
  have hok : Accepted [b, a] := by
    refine haccepted.mpr fun m hm => ?_
    match List.mem_cons.mp hm with
    | .inl hm =>
      rw [hm]
      exact ⟨_, hvisible, by decide⟩
    | .inr hm =>
      rw [List.mem_singleton.mp hm]
      exact ⟨builtin_entities ++ [("Foo", .definition a "Foo")], by decide, by decide⟩
  have hresolves := hresolves hok b List.mem_cons_self
  have hswap : [a, b].Perm [b, a] := List.Perm.swap b a []
  exact ⟨hok, (hresolves _ _).mpr ⟨_, hvisible, by simp⟩,
    ((hperm _ hswap).2 b _ _).mpr ((hresolves _ _).mpr ⟨_, hvisible, by simp⟩)⟩

-- Two modules are imported under one name, in a module that makes no other name visible.
theorem aliases_conflict :
    let a : ModuleSource := [.module ⟨"a", []⟩]
    let b : ModuleSource := [.module ⟨"b", []⟩]
    let c : ModuleSource := [.import (.module ⟨"a", []⟩ (some "x")),
      .import (.module ⟨"b", []⟩ (some "x"))]
    visible [a, b, c] c = some (builtin_entities ++ [("x", .module a), ("x", .module b)]) ∧
      ¬ Accepted [a, b, c] := by
  intro a b c
  refine ⟨by decide, ?_⟩
  rintro ⟨ctx, he⟩
  have herror : PassCtx.parse_modules ([a, b, c].map (List.map RangeSource.range)) =
      .error (.parseError ("symbol is defined twice: the module aliased as 'x' imported here")) := by
    rfl
  cases he.symm.trans herror

end Reowolf.Parser
