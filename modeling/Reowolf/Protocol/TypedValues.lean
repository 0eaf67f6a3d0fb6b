import Reowolf.Library.SharedRegions
import Reowolf.Protocol.Ownership

namespace Reowolf

-- The variable that a value of a pattern stands for.
def Value.binding_pos : Value → Option StackPos
  | binding pos => some pos
  | _           => none

-- What the type table knows of an instance of a user-defined type: the types of the embedded values.
inductive DataType
  | enum
  | struct (fields : List ConcreteType)
  | union (variants : List (List ConcreteType))

variable {types : ConcreteType → Option DataType} {pattern : Bool}

-- The values of a type, by what they hold themselves and by the types of what is below them.
inductive Forms (types : ConcreteType → Option DataType) : Value → ConcreteType → List ConcreteType → Prop
  | bool {value} : Forms types (.bool value) [.bool] []
  | char {value} : Forms types (.char value) [.character] []
  | integer {type value} : Forms types (.integer type value) [.integer type] []
  | input {port element} : Forms types (.input port) (.input :: element) []
  | output {port element} : Forms types (.output port) (.output :: element) []
  | message {n} : Forms types (.message 0) [.message] (List.replicate n [.integer .u8])
  | string {n} : Forms types (.string 0) [.string] (List.replicate n [.character])
  | array {n element} : Forms types (.array 0) (.array :: element) (List.replicate n element)
  | slice {n element} : Forms types (.array 0) (.slice :: element) (List.replicate n element)
  | enum {id n args tag} : types (.instance id n :: args) = some .enum →
    Forms types (.enum tag) (.instance id n :: args) []
  | struct {id n args fields} : types (.instance id n :: args) = some (.struct fields) →
    Forms types (.struct 0) (.instance id n :: args) fields
  | union {id n args variants tag fields} : types (.instance id n :: args) = some (.union variants) →
    0 ≤ tag → variants[tag.toNat]? = some fields → Forms types (.union tag 0) (.instance id n :: args) fields

-- Values of these types. In a pattern a variable may stand where a value is expected.
inductive HasTypes (types : ConcreteType → Option DataType) (pattern : Bool) :
    List (RegionHeap.Tree Value) → List ConcreteType → Prop
  | nil : HasTypes types pattern [] []
  | binding {pos type ts rest} : pattern = true → HasTypes types pattern ts rest →
    HasTypes types pattern (.node (.binding pos) [] :: ts) (type :: rest)
  | node {label type embedded children ts rest} : Forms types label type embedded →
    HasTypes types pattern children embedded → HasTypes types pattern ts rest →
    HasTypes types pattern (.node label children :: ts) (type :: rest)

namespace HasTypes

variable {ts : List (RegionHeap.Tree Value)} {t : RegionHeap.Tree Value}
variable {type : ConcreteType} {rest : List ConcreteType}

theorem length (h : HasTypes types pattern ts rest) : ts.length = rest.length := by
  induction h with
  | nil => rfl
  | binding _ _ ih | node _ _ _ _ ih => simp [ih]

theorem uncons (h : HasTypes types pattern (t :: ts) rest) :
    ∃ type rest', rest = type :: rest' ∧ HasTypes types pattern [t] [type] ∧
      HasTypes types pattern ts rest' := by
  cases h with
  | binding hp h   => exact ⟨_, _, rfl, .binding hp .nil, h⟩
  | node hf hc h   => exact ⟨_, _, rfl, .node hf hc .nil, h⟩

-- What a type says about a value that is no variable of a pattern.
theorem of_node {label : Value} {children : List (RegionHeap.Tree Value)}
    (h : HasTypes types pattern [.node label children] [type]) (hl : label.binding_pos = none) :
    ∃ embedded, Forms types label type embedded ∧ HasTypes types pattern children embedded := by
  cases h with
  | binding            => cases hl
  | node hf hc _       => exact ⟨_, hf, hc⟩

theorem of_value {label : Value} {children : List (RegionHeap.Tree Value)}
    (h : HasTypes types false [.node label children] [type]) :
    ∃ embedded, Forms types label type embedded ∧ HasTypes types false children embedded := by
  cases h with
  | binding hp         => cases hp
  | node hf hc _       => exact ⟨_, hf, hc⟩

end HasTypes

-- Two values that hold the same sort of thing.
inductive SameKind : Value → Value → Prop
  | bool {a b} : SameKind (.bool a) (.bool b)
  | char {a b} : SameKind (.char a) (.char b)
  | integer {type a b} : SameKind (.integer type a) (.integer type b)
  | input {a b} : SameKind (.input a) (.input b)
  | output {a b} : SameKind (.output a) (.output b)
  | enum {a b} : SameKind (.enum a) (.enum b)
  | message {a b} : SameKind (.message a) (.message b)
  | string {a b} : SameKind (.string a) (.string b)
  | array {a b} : SameKind (.array a) (.array b)
  | struct {a b} : SameKind (.struct a) (.struct b)
  | union {tag tag' a b} : SameKind (.union tag a) (.union tag' b)

theorem SameKind.on_heap {v w : Value} (h : SameKind v w) : v.get_heap_pos = none ↔ w.get_heap_pos = none := by
  cases h <;> simp

namespace Forms

variable {v w : Value} {type : ConcreteType} {embedded embedded' : List ConcreteType}

-- The type decides what sort of thing a value is.
theorem same_kind (h : Forms types (v.with_heap_pos 0) type embedded)
    (h' : Forms types (w.with_heap_pos 0) type embedded') : SameKind v w := by
  generalize hv : v.with_heap_pos 0 = label at h
  generalize hw : w.with_heap_pos 0 = label' at h'
  cases h with
  | enum ht | struct ht | union ht =>
    cases h' with
    | enum ht' | struct ht' | union ht' =>
      cases v <;> cases hv
      cases w <;> cases hw
      first | cases ht.symm.trans ht'; done | constructor
  | _ =>
    cases v <;> cases hv
    cases h'
    cases w <;> cases hw
    constructor

-- What is below two values of one type is of the same types, if there is as much of it and they hold the
-- same themselves.
theorem embedded_eq (h : Forms types v type embedded) (h' : Forms types v type embedded')
    (hl : embedded.length = embedded'.length) : embedded = embedded' := by
  cases h <;> cases h' <;> simp_all

end Forms

namespace Store

variable {store : Store} {v w : Value} {vs : List Value} {ts : List (RegionHeap.Tree Value)}
variable {F K : Multiset HeapPos}

-- What a value refers to, which is not a reference again.
def deref (store : Store) (v : Value) : Option Value :=
  match store.maybe_read_ref v with
  | .ok w    => if w.is_ref then none else some w
  | .error _ => none

theorem deref_eq_some : store.deref v = some w ↔ store.maybe_read_ref v = .ok w ∧ w.is_ref = false := by
  unfold deref
  cases store.maybe_read_ref v with
  | error => simp
  | ok w' =>
    by_cases hw : w'.is_ref <;> simp only [hw, Bool.false_eq_true, ↓reduceIte]
    case pos =>
      constructor
      · intro he
        cases he
      · rintro ⟨he, hp⟩
        cases he
        exact absurd hw (by simp [hp])
    case neg =>
      constructor
      · intro he
        cases he
        exact ⟨rfl, by simpa using hw⟩
      · rintro ⟨he, _⟩
        cases he
        rfl

theorem deref_plain (h : v.is_ref = false) : store.deref v = some v := by
  rw [deref_eq_some]
  refine ⟨?_, h⟩
  cases v <;> first | rfl | cases h

-- The trees that values stand for, which may be references and share what they refer to.
abbrev Denotes (store : Store) : List Value → List (RegionHeap.Tree Value) → Prop :=
  RegionHeap.Denotes store.deref Value.get_heap_pos (Value.with_heap_pos 0) store.heap_regions

theorem denotes_leaf (v w : Value) (hr : store.deref v = some w) (hp : w.get_heap_pos = none)
    (h : store.Denotes vs ts) : store.Denotes (v :: vs) (.node (w.with_heap_pos 0) [] :: ts) :=
  .leaf hr hp h

theorem denotes_node (v w : Value) {pos : HeapPos} {us : List Value} {children : List (RegionHeap.Tree Value)}
    (hr : store.deref v = some w) (hp : w.get_heap_pos = some pos)
    (hus : store.heap_regions[pos]? = some us) (hc : store.Denotes us children) (h : store.Denotes vs ts) :
    store.Denotes (v :: vs) (.node (w.with_heap_pos 0) children :: ts) :=
  .node hr hp hus hc h

theorem Reps.denotes (h : store.Reps vs ts F) (hv : ∀ v ∈ vs, v.is_ref = false)
    (hp : ∀ us ∈ store.heap_regions, ∀ u ∈ us, u.is_ref = false) : store.Denotes vs ts :=
  RegionHeap.Reps.denotes h (fun v hm => deref_plain (hv v hm)) fun us hus u hu => deref_plain (hp us hus u hu)

end Store

end Reowolf
