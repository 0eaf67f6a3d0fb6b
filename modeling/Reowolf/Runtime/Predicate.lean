import Reowolf.Library.SortedMap
import Reowolf.Runtime.Common

namespace Reowolf

abbrev SpecVar := PortId

@[ext]
structure SpecVal where
  val : UInt16
deriving DecidableEq, Repr

namespace SpecVal

def FIRING : SpecVal := ⟨1⟩

def SILENT : SpecVal := ⟨0⟩

def is_firing (v : SpecVal) : Bool :=
  v = FIRING

-- The `n`-th value of `(0..).map(SpecVal)`. The domain is `u16`, so the iterator wraps.
def iter_domain (n : Nat) : SpecVal :=
  ⟨UInt16.ofNat n⟩

end SpecVal

@[ext]
structure Predicate where
  assigned : SortedMap SpecVar SpecVal
deriving DecidableEq

inductive AssignmentUnionResult
  | formerNotLatter
  | latterNotFormer
  | equivalent
  | new (predicate : Predicate)
  | nonexistant
deriving DecidableEq

namespace Predicate

instance : EmptyCollection Predicate :=
  ⟨⟨∅⟩⟩

instance : Inhabited Predicate :=
  ⟨∅⟩

def query (p : Predicate) (var : SpecVar) : Option SpecVal :=
  p.assigned.get? var

def inserted (p : Predicate) (k : SpecVar) (v : SpecVal) : Predicate :=
  ⟨p.assigned.insert k v⟩

def singleton (k : SpecVar) (v : SpecVal) : Predicate :=
  (∅ : Predicate).inserted k v

def assigns_subset (p maybe_superset : Predicate) : Bool :=
  p.assigned.entries.all fun (var, val) => maybe_superset.query var = some val

abbrev Assignments := List (SpecVar × SpecVal)

-- The loop of `assignment_union` over the heads of the two sorted assignment lists. It yields the
-- assignments in `s` but not `o`, and those in `o` but not `s`. The inner function advances `o`
-- while its head lies below the head of `s`.
def unionLoop : Assignments → Assignments → Option (Assignments × Assignments)
  | [], o => some ([], o)
  | (sid, sb) :: s, o => advance sid sb s (unionLoop s) o
where
  advance (sid : SpecVar) (sb : SpecVal) (s : Assignments)
      (next : Assignments → Option (Assignments × Assignments)) :
      Assignments → Option (Assignments × Assignments)
    | [] => some ((sid, sb) :: s, [])
    | (oid, ob) :: o =>
      if sid < oid then
        (next ((oid, ob) :: o)).map fun (s_not_o, o_not_s) => ((sid, sb) :: s_not_o, o_not_s)
      else if oid < sid then
        (advance sid sb s next o).map fun (s_not_o, o_not_s) => (s_not_o, (oid, ob) :: o_not_s)
      else if sb ≠ ob then
        none
      else
        next o

def assignment_union (p other : Predicate) : AssignmentUnionResult :=
  match unionLoop p.assigned.entries other.assigned.entries with
  | none => .nonexistant
  | some (s_not_o, o_not_s) =>
    match s_not_o.isEmpty, o_not_s.isEmpty with
    | true,  true  => .equivalent
    | false, true  => .formerNotLatter
    | true,  false => .latterNotFormer
    | false, false => .new ⟨o_not_s.foldl (fun new e => new.insert e.1 e.2) p.assigned⟩

-- `res.assigned.insert` returns the value it replaces, which must not differ from the new one.
def union_with (p other : Predicate) : Option Predicate :=
  other.assigned.entries.foldlM unite p
where
  unite (res : Predicate) : SpecVar × SpecVal → Option Predicate
    | (channel_id, assignment_1) =>
      match res.query channel_id with
      | none => some (res.inserted channel_id assignment_1)
      | some assignment_2 =>
        if assignment_1 ≠ assignment_2 then none
        else some (res.inserted channel_id assignment_1)

instance : HasSubset Predicate :=
  ⟨fun p₁ p₂ => p₁.assigned ⊆ p₂.assigned⟩

def Compatible (p₁ p₂ : Predicate) : Prop :=
  SortedMap.Compatible p₁.assigned p₂.assigned

def union (p₁ p₂ : Predicate) : Predicate :=
  ⟨SortedMap.union p₁.assigned p₂.assigned⟩

variable {p p₁ p₂ : Predicate} {var var' : SpecVar} {val val' : SpecVal}

theorem ext_query (h : ∀ var, p₁.query var = p₂.query var) : p₁ = p₂ :=
  Predicate.ext <| SortedMap.ext_get? h

@[simp]
theorem query_empty : (∅ : Predicate).query var = none :=
  rfl

theorem query_inserted :
    (p.inserted var val).query var' = if var' = var then some val else p.query var' :=
  SortedMap.get?_insert

@[simp]
theorem query_inserted_self : (p.inserted var val).query var = some val :=
  SortedMap.get?_insert_self

theorem query_inserted_ne (h : var' ≠ var) : (p.inserted var val).query var' = p.query var' :=
  SortedMap.get?_insert_ne h

namespace Subset

@[refl]
theorem refl (p : Predicate) : p ⊆ p :=
  SortedMap.Subset.refl _

theorem trans (h₁ : p₁ ⊆ p) (h₂ : p ⊆ p₂) : p₁ ⊆ p₂ :=
  SortedMap.Subset.trans h₁ h₂

theorem antisymm (h₁ : p₁ ⊆ p₂) (h₂ : p₂ ⊆ p₁) : p₁ = p₂ :=
  Predicate.ext <| SortedMap.Subset.antisymm h₁ h₂

theorem empty (p : Predicate) : ∅ ⊆ p :=
  SortedMap.Subset.empty _

theorem inserted (h : p.query var = none ∨ p.query var = some val) : p ⊆ p.inserted var val :=
  SortedMap.Subset.insert h

end Subset

namespace Compatible

theorem symm (h : Compatible p₁ p₂) : Compatible p₂ p₁ :=
  SortedMap.Compatible.symm h

theorem of_subset (h₁ : p₁ ⊆ p) (h₂ : p₂ ⊆ p) : Compatible p₁ p₂ :=
  SortedMap.Compatible.of_subset h₁ h₂

theorem mono (h : Compatible p p₂) (hs : p₁ ⊆ p) : Compatible p₁ p₂ :=
  SortedMap.Compatible.mono h hs

end Compatible

theorem query_union_eq_some (h : Compatible p₁ p₂) :
    (union p₁ p₂).query var = some val ↔ p₁.query var = some val ∨ p₂.query var = some val :=
  SortedMap.get?_union_eq_some h

theorem subset_union_left (h : Compatible p₁ p₂) : p₁ ⊆ union p₁ p₂ :=
  SortedMap.subset_union_left h

theorem subset_union_right : p₂ ⊆ union p₁ p₂ :=
  SortedMap.subset_union_right

theorem union_subset (h₁ : p₁ ⊆ p) (h₂ : p₂ ⊆ p) : union p₁ p₂ ⊆ p :=
  SortedMap.union_subset h₁ h₂

theorem union_eq_left (h : p₂ ⊆ p₁) : union p₁ p₂ = p₁ :=
  Predicate.ext <| SortedMap.union_eq_left h

theorem union_eq_right (h : p₁ ⊆ p₂) : union p₁ p₂ = p₂ :=
  Predicate.ext <| SortedMap.union_eq_right h

theorem assigns_subset_iff : p₁.assigns_subset p₂ = true ↔ p₁ ⊆ p₂ := by
  simp only [assigns_subset, List.all_eq_true, decide_eq_true_eq, Prod.forall,
    ← SortedMap.get?_eq_some_iff]
  rfl

-- Some variable is assigned differently by the two lists.
def Conflict (s o : Assignments) : Prop :=
  ∃ var val₁ val₂, (var, val₁) ∈ s ∧ (var, val₂) ∈ o ∧ val₁ ≠ val₂

-- The assignments of `s` to variables that `o` does not assign.
def missing (s o : Assignments) : Assignments :=
  s.filter fun e => e.1 ∉ o.map (·.1)

-- What the loop of `assignment_union` says about the two lists it runs over.
def LoopResult (s o : Assignments) : Option (Assignments × Assignments) → Prop
  | none                    => Conflict s o
  | some (s_not_o, o_not_s) => ¬Conflict s o ∧ s_not_o = missing s o ∧ o_not_s = missing o s

namespace LoopResult

variable {s o : Assignments} {r : Option (Assignments × Assignments)}

theorem skip_left (hn : var ∉ o.map (·.1)) (h : LoopResult s o r) :
    LoopResult ((var, val) :: s) o (r.map fun (a, b) => ((var, val) :: a, b)) := by
  have hc : Conflict ((var, val) :: s) o ↔ Conflict s o := by
    constructor
    case mpr =>
      rintro ⟨v, a, b, ha, hb⟩
      exact ⟨v, a, b, .tail _ ha, hb⟩
    case mp =>
      rintro ⟨v, a, b, ha, hb, hne⟩
      cases ha
      case head => exact absurd (List.mem_map_of_mem hb) hn
      case tail ha => exact ⟨v, a, b, ha, hb, hne⟩
  cases r
  case none => exact hc.mpr h
  case some r =>
    obtain ⟨h, ha, hb⟩ := h
    refine ⟨hc.not.mpr h, ?_, ?_⟩
    · simp [missing, ha, hn]
    · rw [hb]
      refine List.filter_congr fun e he => ?_
      have : e.1 ≠ var := fun hv => hn (hv ▸ List.mem_map_of_mem he)
      simp [this]

theorem swap (h : LoopResult s o r) : LoopResult o s (r.map Prod.swap) := by
  have hc : Conflict o s ↔ Conflict s o := by
    constructor <;> rintro ⟨v, a, b, ha, hb, h⟩ <;> exact ⟨v, b, a, hb, ha, h.symm⟩
  cases r
  case none => exact hc.mpr h
  case some r =>
    obtain ⟨h, ha, hb⟩ := h
    exact ⟨hc.not.mpr h, hb, ha⟩

theorem skip_right (hn : var ∉ s.map (·.1)) (h : LoopResult s o r) :
    LoopResult s ((var, val) :: o) (r.map fun (a, b) => (a, (var, val) :: b)) := by
  have hl : LoopResult ((var, val) :: o) s _ := skip_left hn h.swap
  have := hl.swap
  rwa [Option.map_map, Option.map_map] at this

theorem skip_both (hs : var ∉ s.map (·.1)) (ho : var ∉ o.map (·.1)) (h : LoopResult s o r) :
    LoopResult ((var, val) :: s) ((var, val) :: o) r := by
  have hmiss {a b : Assignments} (hn : var ∉ a.map (·.1)) :
      missing ((var, val) :: a) ((var, val) :: b) = missing a b := by
    simp only [missing, List.map_cons, List.mem_cons, true_or, not_true_eq_false, decide_false,
      Bool.false_eq_true, not_false_eq_true, List.filter_cons_of_neg]
    refine List.filter_congr fun e he => ?_
    have : e.1 ≠ var := fun hv => hn (hv ▸ List.mem_map_of_mem he)
    simp [this]
  have hc : Conflict ((var, val) :: s) ((var, val) :: o) ↔ Conflict s o := by
    constructor
    case mpr =>
      rintro ⟨v, a, b, ha, hb, h⟩
      exact ⟨v, a, b, .tail _ ha, .tail _ hb, h⟩
    case mp =>
      rintro ⟨v, a, b, ha, hb, hne⟩
      cases ha <;> cases hb
      case head.head => exact absurd rfl hne
      case head.tail hb => exact absurd (List.mem_map_of_mem hb) ho
      case tail.head ha => exact absurd (List.mem_map_of_mem ha) hs
      case tail.tail ha hb => exact ⟨v, a, b, ha, hb, hne⟩
  cases r
  case none => exact hc.mpr h
  case some r =>
    obtain ⟨h, ha, hb⟩ := h
    exact ⟨hc.not.mpr h, ha.trans (hmiss hs).symm, hb.trans (hmiss ho).symm⟩

end LoopResult

theorem not_mem_keys {s : Assignments} (h : ∀ e ∈ s, var < e.1) : var ∉ s.map (·.1) := by
  intro hm
  obtain ⟨e, he, hv⟩ := List.mem_map.mp hm
  exact lt_irrefl _ (hv ▸ h e he)

theorem unionLoop_result {s o : Assignments} (hs : s.Pairwise (·.1 < ·.1))
    (ho : o.Pairwise (·.1 < ·.1)) : LoopResult s o (unionLoop s o) := by
  induction s generalizing o with
  | nil => simp [unionLoop, LoopResult, Conflict, missing]
  | cons hd s hi =>
    have (sid, sb) := hd
    obtain ⟨hlt, hs'⟩ := List.pairwise_cons.mp hs
    simp only [unionLoop]
    induction o with
    | nil => simp [unionLoop.advance, LoopResult, Conflict, missing]
    | cons hd o hio =>
      have (oid, ob) := hd
      obtain ⟨hlt', ho'⟩ := List.pairwise_cons.mp ho
      unfold unionLoop.advance
      split
      case isTrue h =>
        refine .skip_left (not_mem_keys fun e he => ?_) (hi hs' ho)
        cases he
        case head => exact h
        case tail he => exact lt_trans h (hlt' e he)
      case isFalse h₁ =>
        split
        case isTrue h =>
          refine .skip_right (not_mem_keys fun e he => ?_) (hio ho')
          cases he
          case head => exact h
          case tail he => exact lt_trans h (hlt e he)
        case isFalse h₂ =>
          have heq : oid = sid := le_antisymm (not_lt.mp h₁) (not_lt.mp h₂)
          subst heq
          split
          case isTrue h => exact ⟨oid, sb, ob, .head _, .head _, h⟩
          case isFalse h =>
            rw [← not_not.mp h]
            exact .skip_both (not_mem_keys hlt) (not_mem_keys hlt') (hi hs' ho')

theorem conflict_iff : Conflict p₁.assigned.entries p₂.assigned.entries ↔ ¬Compatible p₁ p₂ := by
  simp only [Conflict, Compatible, SortedMap.Compatible, SortedMap.get?_eq_some_iff]
  push Not
  rfl

theorem missing_isEmpty (hc : Compatible p₁ p₂) :
    (missing p₁.assigned.entries p₂.assigned.entries).isEmpty = true ↔ p₁ ⊆ p₂ := by
  simp only [missing, List.isEmpty_iff, List.filter_eq_nil_iff, decide_eq_true_eq, not_not,
    List.mem_map, Prod.forall, Prod.exists, exists_and_right, exists_eq_right,
    ← SortedMap.get?_eq_some_iff]
  refine forall_congr' fun k => forall_congr' fun v => forall_congr' fun hk => ?_
  exact ⟨fun h => h.elim fun v' h => hc k v v' hk h ▸ h, fun h => ⟨v, h⟩⟩

theorem foldl_missing (hc : Compatible p₁ p₂) :
    (missing p₂.assigned.entries p₁.assigned.entries).foldl
      (fun new e => new.insert e.1 e.2) p₁.assigned = (union p₁ p₂).assigned := by
  let m : SortedMap SpecVar SpecVal := ⟨missing p₂.assigned.entries p₁.assigned.entries,
    p₂.assigned.sorted.filter _⟩
  have hm {k v} : m.get? k = some v ↔ p₂.query k = some v ∧ ∀ w, p₁.query k ≠ some w := by
    simp only [query, ne_eq, SortedMap.get?_eq_some_iff, m, missing, List.mem_filter,
      decide_eq_true_eq, List.mem_map, Prod.exists, exists_and_right, exists_eq_right, not_exists]
  have hc' : SortedMap.Compatible p₁.assigned m :=
    fun k v w h₁ h₂ => absurd h₁ ((hm.mp h₂).right v)
  show SortedMap.union p₁.assigned m = _
  refine SortedMap.ext_get? fun k => Option.ext fun v => ?_
  refine (SortedMap.get?_union_eq_some hc').trans (.trans ?_ (SortedMap.get?_union_eq_some hc).symm)
  rw [hm]
  cases h₁ : p₁.query k
  case none =>
    have h₁ : p₁.assigned.get? k = none := h₁
    simp [h₁, query]
  case some w =>
    have h₁ : p₁.assigned.get? k = some w := h₁
    have : p₂.assigned.get? k = some v → w = v := hc k w v h₁
    simp only [h₁, Option.some.injEq, ne_eq, forall_eq', and_false, or_false]
    exact ⟨.inl, fun h => h.elim id this⟩

-- What `assignment_union` tells about the two predicates.
inductive UnionSpec (p other : Predicate) : AssignmentUnionResult → Prop
  | nonexistant     : ¬Compatible p other → UnionSpec p other .nonexistant
  | equivalent      : p = other → UnionSpec p other .equivalent
  | formerNotLatter : other ⊆ p → p ≠ other → UnionSpec p other .formerNotLatter
  | latterNotFormer : p ⊆ other → ¬other ⊆ p → UnionSpec p other .latterNotFormer
  | new             : Compatible p other → ¬p ⊆ other → ¬other ⊆ p →
                      UnionSpec p other (.new (union p other))

theorem assignment_union_spec (p other : Predicate) : UnionSpec p other (p.assignment_union other) := by
  have h := unionLoop_result p.assigned.sorted other.assigned.sorted
  simp only [assignment_union]
  cases hr : unionLoop p.assigned.entries other.assigned.entries
  case none =>
    rw [hr] at h
    exact .nonexistant (conflict_iff.mp h)
  case some r =>
    have (a, b) := r
    rw [hr] at h
    obtain ⟨hc, ha, hb⟩ := h
    have hc := not_not.mp (conflict_iff.not.mp hc)
    have hs := missing_isEmpty hc
    have ho := missing_isEmpty hc.symm
    subst ha hb
    simp only [foldl_missing hc]
    cases h₁ : (missing p.assigned.entries other.assigned.entries).isEmpty <;>
    cases h₂ : (missing other.assigned.entries p.assigned.entries).isEmpty <;>
    simp only [h₁, h₂, Bool.false_eq_true, true_iff, false_iff] at hs ho ⊢
    case false.false => exact .new hc hs ho
    case false.true  => exact .formerNotLatter ho fun h => hs (h ▸ Subset.refl p)
    case true.false  => exact .latterNotFormer hs ho
    case true.true   => exact .equivalent (Subset.antisymm hs ho)

theorem assignment_union_nonexistant_iff :
    p₁.assignment_union p₂ = .nonexistant ↔ ¬Compatible p₁ p₂ := by
  have h := assignment_union_spec p₁ p₂
  generalize p₁.assignment_union p₂ = r at h
  cases h
  case nonexistant h         => simp [h]
  case equivalent h          => simp [h, Compatible.of_subset (Subset.refl _) (Subset.refl _)]
  case formerNotLatter h _   => simp [Compatible.of_subset (Subset.refl _) h]
  case latterNotFormer h _   => simp [Compatible.of_subset h (Subset.refl _)]
  case new h _ _             => simp [h]

-- `union_with` inserts the other predicate's assignments as long as none of them conflicts.
theorem unite_foldlM {l : Assignments} (hl : l.Pairwise (·.1 < ·.1)) {r : Predicate} :
    l.foldlM union_with.unite p = some r ↔
    (∀ e ∈ l, ∀ v, p.query e.1 = some v → v = e.2) ∧
    r = ⟨l.foldl (fun m e => m.insert e.1 e.2) p.assigned⟩ := by
  induction l generalizing p with
  | nil => simp [eq_comm]
  | cons hd l hi =>
    have (k, v) := hd
    obtain ⟨hlt, hl'⟩ := List.pairwise_cons.mp hl
    have hq (e) (he : e ∈ l) : (p.inserted k v).query e.1 = p.query e.1 :=
      query_inserted_ne fun h => lt_irrefl _ (h ▸ hlt e he)
    have hi := hi hl' (p := p.inserted k v)
    rw [List.foldlM_cons]
    cases hp : p.query k
    case none =>
      simp only [union_with.unite, hp, Option.bind_eq_bind, Option.bind_some, hi]
      refine and_congr_left fun _ => ⟨fun h e he w hw => ?_, fun h e he w hw => ?_⟩
      · cases he
        case head => simp [hp] at hw
        case tail he => exact h e he w (hq e he ▸ hw)
      · exact h e (.tail _ he) w (hq e he ▸ hw)
    case some w =>
      simp only [union_with.unite, hp]
      split
      case isTrue hne =>
        simp only [Option.bind_eq_bind, Option.bind_none, reduceCtorEq, false_iff]
        rintro ⟨h, _⟩
        exact hne (h _ (.head _) w hp).symm
      case isFalse heq =>
        simp only [Option.bind_eq_bind, Option.bind_some, hi]
        refine and_congr_left fun _ => ⟨fun h e he x hx => ?_, fun h e he x hx => ?_⟩
        · cases he
          case head => simp_all
          case tail he => exact h e he x (hq e he ▸ hx)
        · exact h e (.tail _ he) x (hq e he ▸ hx)

theorem union_with_eq_some {r : Predicate} :
    p₁.union_with p₂ = some r ↔ Compatible p₁ p₂ ∧ r = union p₁ p₂ := by
  rw [union_with, unite_foldlM p₂.assigned.sorted]
  refine and_congr_left fun _ => ?_
  simp only [Prod.forall, Compatible, SortedMap.Compatible, ← SortedMap.get?_eq_some_iff]
  exact ⟨fun h k v w h₁ h₂ => h k w h₂ v h₁, fun h k w h₂ v h₁ => h k v w h₁ h₂⟩

-- `q` assigns what the given predicates assign, and nothing else. It exists if they are consistent.
def Unites (q : Predicate) (ps : Set Predicate) : Prop :=
  ∀ var val, q.query var = some val ↔ ∃ p ∈ ps, p.query var = some val

namespace Unites

variable {q q' : Predicate} {ps : Set Predicate}

theorem unique (h : q.Unites ps) (h' : q'.Unites ps) : q = q' :=
  ext_query fun var => Option.ext fun val => (h var val).trans (h' var val).symm

theorem subset (h : q.Unites ps) (hp : p ∈ ps) : p ⊆ q :=
  fun var val hv => (h var val).mpr ⟨p, hp, hv⟩

theorem least (h : q.Unites ps) (hp : ∀ p ∈ ps, p ⊆ p₁) : q ⊆ p₁ := by
  intro var val hv
  obtain ⟨p, hm, hv⟩ := (h var val).mp hv
  exact hp p hm var val hv

theorem pair : q.Unites {p₁, p₂} ↔
    ∀ var val, q.query var = some val ↔ p₁.query var = some val ∨ p₂.query var = some val := by
  simp [Unites]

end Unites

theorem union_with_eq_some_iff {q : Predicate} :
    p₁.union_with p₂ = some q ↔ q.Unites {p₁, p₂} := by
  rw [union_with_eq_some]
  constructor
  case mp =>
    rintro ⟨hc, hq⟩
    subst hq
    exact Unites.pair.mpr fun var val => query_union_eq_some hc
  case mpr =>
    intro h
    have hc : Compatible p₁ p₂ := .of_subset (h.subset (.inl rfl)) (h.subset (.inr rfl))
    have hu : (union p₁ p₂).Unites {p₁, p₂} := Unites.pair.mpr fun _ _ => query_union_eq_some hc
    exact ⟨hc, h.unique hu⟩

theorem union_with_eq_none : p₁.union_with p₂ = none ↔ ¬Compatible p₁ p₂ := by
  rw [Option.eq_none_iff_forall_ne_some]
  simp only [ne_eq, union_with_eq_some, not_and]
  exact ⟨fun h hc => h _ hc rfl, fun h _ hc => absurd hc h⟩

theorem union_with_comm (p₁ p₂ : Predicate) : p₁.union_with p₂ = p₂.union_with p₁ := by
  apply Option.ext
  intro q
  rw [union_with_eq_some_iff, union_with_eq_some_iff, Set.pair_comm]

-- Of the predicates on the way to the union of three, the first one exists when the last one does.
theorem union_with_bind_eq_some {p₃ q : Predicate} :
    ((p₁.union_with p₂).bind fun p => p.union_with p₃) = some q ↔ q.Unites {p₁, p₂, p₃} := by
  simp only [Option.bind_eq_some_iff, union_with_eq_some_iff]
  constructor
  case mp =>
    rintro ⟨p, hp, hq⟩ var val
    simp only [Unites.pair.mp hq, Unites.pair.mp hp, Set.mem_insert_iff, Set.mem_singleton_iff,
      exists_eq_or_imp, exists_eq_left, or_assoc]
  case mpr =>
    intro h
    have hc : Compatible p₁ p₂ := .of_subset (h.subset (.inl rfl)) (h.subset (.inr (.inl rfl)))
    have hu : (union p₁ p₂).Unites {p₁, p₂} := Unites.pair.mpr fun _ _ => query_union_eq_some hc
    refine ⟨union p₁ p₂, hu, Unites.pair.mpr fun var val => ?_⟩
    simp only [h var val, Unites.pair.mp hu, Set.mem_insert_iff, Set.mem_singleton_iff,
      exists_eq_or_imp, exists_eq_left, or_assoc]

theorem union_with_assoc (p₁ p₂ p₃ : Predicate) :
    ((p₁.union_with p₂).bind fun p => p.union_with p₃) =
    (p₂.union_with p₃).bind fun p => p₁.union_with p := by
  apply Option.ext
  intro q
  have hr : ((p₂.union_with p₃).bind fun p => p₁.union_with p) =
      (p₂.union_with p₃).bind fun p => p.union_with p₁ := by
    simp only [union_with_comm p₁]
  rw [hr, union_with_bind_eq_some, union_with_bind_eq_some]
  have : ({p₁, p₂, p₃} : Set Predicate) = {p₂, p₃, p₁} := by
    rw [Set.insert_comm, Set.pair_comm p₁]
  rw [this]

theorem assignment_union_equivalent_iff : p₁.assignment_union p₂ = .equivalent ↔ p₁ = p₂ := by
  have h := assignment_union_spec p₁ p₂
  generalize p₁.assignment_union p₂ = r at h
  cases h
  case equivalent h        => simp [h]
  case formerNotLatter _ h => simp [h]
  all_goals
    simp only [reduceCtorEq, false_iff]
    intro he
    subst he
  case nonexistant h         => exact h (.of_subset (Subset.refl _) (Subset.refl _))
  case latterNotFormer _ h   => exact h (Subset.refl _)
  case new h _               => exact h (Subset.refl _)

theorem assignment_union_formerNotLatter_iff :
    p₁.assignment_union p₂ = .formerNotLatter ↔ p₂ ⊆ p₁ ∧ p₂ ≠ p₁ := by
  have h := assignment_union_spec p₁ p₂
  generalize p₁.assignment_union p₂ = r at h
  cases h
  case nonexistant h        => simpa using fun hs => absurd (.of_subset (Subset.refl _) hs) h
  case equivalent h         => simp [h]
  case formerNotLatter h h' => simp [h, h'.symm]
  case latterNotFormer _ h  => simp [h]
  case new h                => simp [h]

theorem assignment_union_latterNotFormer_iff :
    p₁.assignment_union p₂ = .latterNotFormer ↔ p₁ ⊆ p₂ ∧ p₁ ≠ p₂ := by
  have h := assignment_union_spec p₁ p₂
  generalize p₁.assignment_union p₂ = r at h
  cases h
  case nonexistant h        => simpa using fun hs => absurd (.of_subset hs (Subset.refl _)) h
  case equivalent h         => simp [h]
  case formerNotLatter h h' => simpa using fun hs => Subset.antisymm hs h
  case latterNotFormer h h' =>
    simp only [h, true_and, true_iff]
    intro he
    exact h' (he ▸ h)
  case new h _              => simp [h]

theorem assignment_union_new_iff {q : Predicate} :
    p₁.assignment_union p₂ = .new q ↔ ¬p₁ ⊆ p₂ ∧ ¬p₂ ⊆ p₁ ∧ p₁.union_with p₂ = some q := by
  rw [union_with_eq_some]
  have h := assignment_union_spec p₁ p₂
  generalize p₁.assignment_union p₂ = r at h
  cases h
  case nonexistant h        => simp [h]
  case equivalent h         => simpa [h] using fun hn => absurd (Subset.refl _) hn
  case formerNotLatter h _  => simp [h]
  case latterNotFormer h _  => simp [h]
  case new hc hl hr         => simp [hc, hl, hr, eq_comm]

theorem union_with_least {q : Predicate} (h : p₁.union_with p₂ = some q) :
    p₁ ⊆ q ∧ p₂ ⊆ q ∧ ∀ p, p₁ ⊆ p → p₂ ⊆ p → q ⊆ p := by
  have hu := union_with_eq_some_iff.mp h
  refine ⟨hu.subset (.inl rfl), hu.subset (.inr rfl), fun p h₁ h₂ => hu.least ?_⟩
  intro p' hp
  cases hp
  case inl hp => exact hp ▸ h₁
  case inr hp => exact hp ▸ h₂

-- The merge of the two assignment lists says how the predicates relate, and agrees with the plain
-- union of the two maps.
theorem union_algebra (a b : Predicate) :
    (a.assignment_union b = .nonexistant ↔ a.union_with b = none) ∧
    (a.union_with b = none ↔
      ∃ var val val', a.query var = some val ∧ b.query var = some val' ∧ val ≠ val') ∧
    (a.assignment_union b = .equivalent ↔ a = b) ∧
    (a.assignment_union b = .formerNotLatter ↔ b.assigns_subset a = true ∧ b ≠ a) ∧
    (a.assignment_union b = .latterNotFormer ↔ a.assigns_subset b = true ∧ a ≠ b) ∧
    (∀ c, a.assignment_union b = .new c ↔
      a.assigns_subset b = false ∧ b.assigns_subset a = false ∧ a.union_with b = some c) ∧
    (∀ c, a.union_with b = some c →
      a.assigns_subset c = true ∧ b.assigns_subset c = true ∧
      ∀ d : Predicate, a.assigns_subset d = true → b.assigns_subset d = true →
        c.assigns_subset d = true) ∧
    a.union_with b = b.union_with a ∧
    ∀ c, ((a.union_with b).bind fun ab => ab.union_with c) =
      (b.union_with c).bind fun bc => a.union_with bc := by
  simp only [← Bool.not_eq_true, assigns_subset_iff]
  refine ⟨?_, ?_, assignment_union_equivalent_iff, assignment_union_formerNotLatter_iff,
    assignment_union_latterNotFormer_iff, fun _ => assignment_union_new_iff,
    fun _ => union_with_least, union_with_comm a b, union_with_assoc a b⟩
  · rw [assignment_union_nonexistant_iff, union_with_eq_none]
  · rw [union_with_eq_none]
    simp only [Compatible, SortedMap.Compatible]
    push Not
    rfl

end Predicate
end Reowolf
