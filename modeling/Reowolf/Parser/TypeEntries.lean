import Reowolf.Parser.TypeLoop

namespace Reowolf.Parser

theorem consume_parser_type_ident_path {ctx : TypeCtx} {root path} (h : Spells ctx root path)
    (rest : TokenIter) :
    consume_parser_type_ident ctx (path_tokens path ++ rest) =
      .ok (⟨root, "::".intercalate path⟩, rest) := by
  cases h
  case builtin text hb hi =>
    have hi : ¬(root = .inferred ∧ (!ctx.allow_inference) = true) := fun h => hi h.1
    simp only [path_tokens, List.map, List.intersperse, List.cons_append, List.nil_append,
      consume_parser_type_ident, consume_any_ident_ident, bind, Except.bind, hb, hi, if_false]
    rfl
  case polymorphicArgument hb hp =>
    simp only [path_tokens, List.map, List.intersperse, List.cons_append, List.nil_append,
      consume_parser_type_ident, consume_any_ident_ident, bind, Except.bind, hb, hp]
    rfl
  case definition hb hp hs =>
    simp only [path_tokens, List.map, List.intersperse, List.cons_append, List.nil_append,
      consume_parser_type_ident, consume_any_ident_ident, bind, Except.bind, hb, hp, hs,
      consume_symbol_path]
    rfl
  case qualified hb hp hs hd =>
    simp [path_tokens, consume_parser_type_ident, consume_symbol_path, bind, Except.bind, hb, hp, hs,
      hd, Token.of, Token.ident, consume_any_ident, peek_ident, consume_token]

namespace TypeTree

variable {ctx : TypeCtx} {path : ParserTypeVariant → List Identifier}

mutual

theorem map_entries (depth : Int) : (tree : TypeTree) →
    (tree.entries path depth).map (·.element.variant) = tree.prefix_order
  | node root args => by
    simp [entries, prefix_order, spelled, map_argument_entries (depth + 1) args]
  | array element => by simp [entries, prefix_order, map_entries (depth + 1) element]

theorem map_argument_entries (depth : Int) : (args : List TypeTree) →
    (argument_entries path depth args).map (·.element.variant) = prefix_orders args
  | [] => rfl
  | arg :: args => by
    simp [argument_entries, prefix_orders, map_entries depth arg, map_argument_entries depth args]

end

mutual

theorem deepen_entries (depth : Int) : (tree : TypeTree) →
    (tree.entries path depth).map Entry.deepen = tree.entries path (depth + 1)
  | node root args => by simp [entries, Entry.deepen, deepen_argument_entries (depth + 1) args]
  | array element => by simp [entries, Entry.deepen, deepen_entries (depth + 1) element]

theorem deepen_argument_entries (depth : Int) : (args : List TypeTree) →
    (argument_entries path depth args).map Entry.deepen = argument_entries path (depth + 1) args
  | [] => rfl
  | arg :: args => by
    simp [argument_entries, deepen_entries depth arg, deepen_argument_entries depth args]

end

mutual

theorem le_depth {depth : Int} : {tree : TypeTree} → ∀ {entry},
    entry ∈ tree.entries path depth → depth ≤ entry.depth
  | node root args, entry, h => by
    simp only [entries, List.mem_cons] at h
    cases h
    case inl h => simp [h]
    case inr h => have := le_argument_depth h; omega
  | array element, entry, h => by
    simp only [entries, List.mem_cons] at h
    cases h
    case inl h => simp [h]
    case inr h => have := le_depth h; omega

theorem le_argument_depth {depth : Int} : {args : List TypeTree} → ∀ {entry},
    entry ∈ argument_entries path depth args → depth ≤ entry.depth
  | [], _, h => by cases h
  | arg :: args, entry, h => by
    simp only [argument_entries, List.mem_append] at h
    cases h
    case inl h => exact le_depth h
    case inr h => exact le_argument_depth h

end

-- An entry for the root, with deeper ones for what is below it.
theorem WellFormed.entries_eq {tree : TypeTree} (h : tree.WellFormed ctx path) (depth : Int) :
    ∃ element children, tree.entries path depth = ⟨element, depth⟩ :: children ∧
      (∀ child ∈ children, depth + 1 ≤ child.depth) ∧
      (element.variant.num_embedded = 0 → children = []) := by
  cases h
  case node root args _ hl _ =>
    refine ⟨_, _, rfl, fun _ hc => le_argument_depth hc, fun h0 => ?_⟩
    have ha : args = [] := List.length_eq_zero_iff.mp (hl.trans h0)
    simp [ha, argument_entries]
  case array => exact ⟨_, _, rfl, fun _ hc => le_depth hc, fun h0 => by cases h0⟩

end TypeTree

theorem deepen_children_eq {depth : Int} {entries : List Entry}
    (h : ∀ entry ∈ entries, depth + 1 ≤ entry.depth) :
    deepen_children depth entries = entries.map Entry.deepen := by
  induction entries
  case nil => rfl
  case cons entry entries ih =>
    obtain ⟨hd, h⟩ := List.forall_mem_cons.mp h
    simp [deepen_children, hd, ih h]

theorem rposition_append {elements children : List Entry} {element depth}
    (h : ∀ child ∈ children, depth + 1 ≤ child.depth) :
    rposition (elements ++ ⟨element, depth⟩ :: children) depth = some elements.length := by
  have hc : (List.findIdx? (fun entry : Entry => decide (entry.depth = depth)) children.reverse) =
      none := by
    simp only [List.findIdx?_eq_none_iff, List.mem_reverse, decide_eq_false_iff_not]
    intro child hm he
    have := h child hm
    omega
  simp [rposition, List.findIdx?_append, List.findIdx?_cons, hc]

theorem TypeTree.WellFormed.insert_array_before {ctx path} {tree : TypeTree}
    (h : tree.WellFormed ctx path) (elements : List Entry) (depth : Int) :
    insert_array_before (elements ++ tree.entries path depth) depth "[]" =
      .ok (elements ++ (TypeTree.array tree).entries path depth) := by
  obtain ⟨element, children, he, hc, h0⟩ := h.entries_eq depth
  have hd : TypeTree.entries path (depth + 1) tree =
      Entry.deepen ⟨element, depth⟩ :: children.map Entry.deepen := by
    rw [← TypeTree.deepen_entries, he]
    rfl
  simp only [Parser.insert_array_before, he, rposition_append hc, List.drop_left, List.take_left,
    TypeTree.entries, hd, Entry.num_embedded, deepen_children_eq hc]
  split
  case isTrue => rfl
  case isFalse hz => simp [h0 (by simpa using hz)]

namespace TypeTree

variable {ctx : TypeCtx} {path : ParserTypeVariant → List Identifier}

-- The state of the loop behind a type.
def after : TypeTree → TypeState
  | node _ []       => .ident
  | node _ (_ :: _) => .close
  | array element   => element.after

theorem after_eq : (tree : TypeTree) → tree.after = .ident ∨ tree.after = .close
  | node _ []       => .inl rfl
  | node _ (_ :: _) => .inr rfl
  | array element   => element.after_eq

-- The loop reads the tokens of a type and comes to the entries of it.
def Consumed (ctx : TypeCtx) (path : ParserTypeVariant → List Identifier) (tree : TypeTree) : Prop :=
  ∀ {state depth elements rest last}, state = .open ∨ state = .comma → 0 < depth →
    TypeLoop.Rounds ctx ⟨tree.after, depth, elements ++ tree.entries path depth, rest⟩ last →
    TypeLoop.Rounds ctx ⟨state, depth, elements, tree.print path ++ rest⟩ last

theorem path_tokens_next {root names} (h : Spells ctx root names) (rest : TokenIter) :
    TokenIter.next (path_tokens names ++ rest) = some .ident := by
  cases h <;> rfl

theorem rounds_root {root state depth elements rest last} (h : Spells ctx root (path root))
    (hs : state = .open ∨ state = .comma) (hd : 0 < depth)
    (hf : TypeLoop.Rounds ctx ⟨.ident, depth, elements ++ [⟨spelled path root, depth⟩], rest⟩ last) :
    TypeLoop.Rounds ctx ⟨state, depth, elements, path_tokens (path root) ++ rest⟩ last := by
  have he : TypeLoop.consume_element ctx ⟨state, depth, elements, path_tokens (path root) ++ rest⟩ =
      .ok ⟨.ident, depth, elements ++ [⟨spelled path root, depth⟩], rest⟩ := by
    simp only [TypeLoop.consume_element, consume_parser_type_ident_path h, bind, Except.bind]
    rfl
  refine .more ?_ hd hf
  cases hs
  case inl hs =>
    subst hs
    exact he
  case inr hs =>
    subst hs
    simp only [TypeLoop.round, path_tokens_next h]
    exact he

-- The arguments behind the first one.
theorem rounds_arguments {args : List TypeTree} (ha : ∀ arg ∈ args, arg.Consumed ctx path)
    {state depth elements rest last} (hs : state = .ident ∨ state = .close) (hd : 0 ≤ depth)
    (h : TypeLoop.Ends ctx
      ⟨.close, depth, elements ++ argument_entries path (depth + 1) args, rest⟩ last) :
    TypeLoop.Rounds ctx ⟨state, depth + 1, elements, print_arguments path args ++ rest⟩ last := by
  induction args generalizing state elements
  case nil =>
    refine TypeLoop.rounds_iff.mpr ⟨_, ?_, h⟩
    cases hs <;> subst state <;>
      simp [TypeLoop.round, TypeLoop.goto, print_arguments, argument_entries]
  case cons arg args ih =>
    obtain ⟨ha, has⟩ := List.forall_mem_cons.mp ha
    have hf : TypeLoop.Rounds ctx ⟨arg.after, depth + 1, elements ++ arg.entries path (depth + 1),
        print_arguments path args ++ rest⟩ last :=
      ih has arg.after_eq (by simpa only [argument_entries, List.append_assoc] using h)
    have hf := ha (.inr rfl) (by omega) hf
    simp only [print_arguments, List.cons_append, List.append_assoc]
    refine .more ?_ (by simp; omega) hf
    cases hs <;> subst state <;> simp [TypeLoop.round, TypeLoop.goto]

theorem rounds_open_angle {state depth elements rest last} (hs : state = .ident) (hd : 0 ≤ depth)
    (h : TypeLoop.Rounds ctx ⟨.open, depth + 1, elements, rest⟩ last) :
    TypeLoop.Rounds ctx ⟨state, depth, elements, .of .openAngle :: rest⟩ last :=
  .more (by simp [TypeLoop.round, TypeLoop.goto, hs]) (by dsimp only; omega) h

theorem rounds_array {tree : TypeTree} (ht : tree.WellFormed ctx path)
    {depth elements rest last} (hd : 0 < depth)
    (h : TypeLoop.Rounds ctx ⟨tree.after, depth, elements ++ (array tree).entries path depth, rest⟩
      last) :
    TypeLoop.Rounds ctx ⟨tree.after, depth, elements ++ tree.entries path depth,
      .of .openSquare :: .of .closeSquare :: rest⟩ last := by
  refine .more ?_ hd h
  cases tree.after_eq <;>
    simp [TypeLoop.round, TypeLoop.consume_array, bind, Except.bind, Token.of, *,
      ht.insert_array_before]

theorem WellFormed.consumed {tree : TypeTree} (h : tree.WellFormed ctx path) :
    tree.Consumed ctx path := by
  induction h
  case node root args hr hl _ ih =>
    intro state depth elements rest last hs hd hf
    match args with
    | [] => exact rounds_root hr hs hd hf
    | arg :: args =>
      obtain ⟨ha, has⟩ := List.forall_mem_cons.mp ih
      simp only [print, List.append_assoc, List.cons_append]
      refine rounds_root hr hs hd (rounds_open_angle rfl (by omega) (ha (.inl rfl) (by omega) ?_))
      refine rounds_arguments has arg.after_eq (by omega) (.inr ⟨hd, ?_⟩)
      simpa only [entries, argument_entries, after, List.append_assoc, List.cons_append,
        List.nil_append] using hf
  case array element he ih =>
    intro state depth elements rest last hs hd hf
    simp only [print, List.append_assoc]
    exact ih hs hd (rounds_array he hd hf)

end TypeTree

-- Every element has as many elements under it as its type embeds.
def Counted : List Entry → Prop
  | [] => True
  | cur :: entries =>
    cur.num_embedded = encountered_subtypes cur.depth entries ∧ Counted entries

theorem check_subtypes_counted {allow_inference} {entries checked : List Entry} (h : Counted entries) :
    check_subtypes allow_inference entries.length checked entries = .ok (checked ++ entries) := by
  induction entries generalizing checked
  case nil => rfl
  case cons cur entries ih => simp [check_subtypes, h.1, ih h.2]

-- What is checked stays, and so does the element that is checked next.
theorem check_subtypes_ok {allow_inference num} {checked entries result : List Entry}
    (h : check_subtypes allow_inference num checked entries = .ok result) :
    ∃ rest, result = checked ++ rest ∧ rest.head? = entries.head? := by
  induction num generalizing checked entries
  case zero =>
    cases h
    exact ⟨entries, rfl, rfl⟩
  case succ num ih =>
    match entries with
    | [] =>
      cases h
      exact ⟨[], by simp, rfl⟩
    | cur :: entries =>
      have next {entries'} (h : check_subtypes allow_inference num (checked ++ [cur]) entries' =
          .ok result) : ∃ rest, result = checked ++ rest ∧ rest.head? = some cur := by
        obtain ⟨rest, he, _⟩ := ih h
        exact ⟨cur :: rest, by simp [he], rfl⟩
      simp only [check_subtypes] at h
      split at h
      case isTrue => exact next h
      case isFalse =>
        split at h
        case isTrue => cases h
        case isFalse =>
          split at h
          case isTrue => exact next h
          case isFalse => cases h

theorem encountered_deeper {depth : Int} {entries tail : List Entry}
    (h : ∀ entry ∈ entries, depth + 2 ≤ entry.depth) :
    encountered_subtypes depth (entries ++ tail) = encountered_subtypes depth tail := by
  induction entries
  case nil => rfl
  case cons entry entries ih =>
    obtain ⟨hd, h⟩ := List.forall_mem_cons.mp h
    have h₁ : ¬entry.depth = depth + 1 := by omega
    have h₂ : ¬entry.depth ≤ depth := by omega
    simp [encountered_subtypes, h₁, h₂, ih h]

-- The first entry is not under anything at the depth.
def Outside (depth : Int) (tail : List Entry) : Prop := ∀ entry ∈ tail.head?, entry.depth ≤ depth

theorem encountered_outside {depth : Int} {tail : List Entry} (h : Outside depth tail) :
    encountered_subtypes depth tail = 0 := by
  match tail with
  | [] => rfl
  | entry :: tail =>
    have hd : entry.depth ≤ depth := h entry rfl
    have h₁ : ¬entry.depth = depth + 1 := by omega
    simp [encountered_subtypes, hd, h₁]

namespace TypeTree

variable {ctx : TypeCtx} {path : ParserTypeVariant → List Identifier}

theorem encountered_entries {tree : TypeTree} (h : tree.WellFormed ctx path) (depth : Int)
    (tail : List Entry) :
    encountered_subtypes depth (tree.entries path (depth + 1) ++ tail) =
      encountered_subtypes depth tail + 1 := by
  obtain ⟨element, children, he, hc, _⟩ := h.entries_eq (depth + 1)
  have hc : ∀ child ∈ children, depth + 2 ≤ child.depth := fun child hm => by
    have := hc child hm
    omega
  simp [he, encountered_subtypes, encountered_deeper hc]

theorem encountered_arguments {args : List TypeTree} (h : ∀ arg ∈ args, arg.WellFormed ctx path)
    {depth : Int} {tail : List Entry} (ht : Outside depth tail) :
    encountered_subtypes depth (argument_entries path (depth + 1) args ++ tail) = args.length := by
  induction args
  case nil => exact encountered_outside ht
  case cons arg args ih =>
    obtain ⟨ha, has⟩ := List.forall_mem_cons.mp h
    simp only [argument_entries, List.append_assoc, encountered_entries ha, ih has,
      List.length_cons]

theorem outside_entries {tree : TypeTree} (h : tree.WellFormed ctx path) (depth : Int)
    (tail : List Entry) : Outside depth (tree.entries path depth ++ tail) := by
  obtain ⟨element, children, he, _⟩ := h.entries_eq depth
  intro entry hm
  rw [he] at hm
  cases hm
  exact Int.le_refl _

theorem counted_arguments {args : List TypeTree} {depth : Int} {tail : List Entry}
    (h : ∀ arg ∈ args, ∀ {tail}, Outside depth tail → Counted tail →
      Counted (arg.entries path depth ++ tail))
    (hw : ∀ arg ∈ args, arg.WellFormed ctx path) (ho : Outside depth tail) (hc : Counted tail) :
    Counted (argument_entries path depth args ++ tail) := by
  induction args
  case nil => exact hc
  case cons arg args ih =>
    obtain ⟨ha, has⟩ := List.forall_mem_cons.mp h
    obtain ⟨_, hws⟩ := List.forall_mem_cons.mp hw
    simp only [argument_entries, List.append_assoc]
    refine ha ?_ (ih has hws)
    match args with
    | [] => exact ho
    | arg :: args =>
      simp only [argument_entries, List.append_assoc]
      exact outside_entries (hws arg (by simp)) _ _

theorem WellFormed.counted {tree : TypeTree} (h : tree.WellFormed ctx path) {depth : Int}
    {tail : List Entry} (ho : Outside depth tail) (hc : Counted tail) :
    Counted (tree.entries path depth ++ tail) := by
  induction h generalizing depth tail
  case node root args _ hl hw ih =>
    have ho' : Outside (depth + 1) tail := fun entry hm => by
      have := ho entry hm
      omega
    exact ⟨(encountered_arguments hw ho).symm ▸ hl.symm,
      counted_arguments (fun arg ha _ => ih arg ha) hw ho' hc⟩
  case array element he ih =>
    have ho' : Outside (depth + 1) tail := fun entry hm => by
      have := ho entry hm
      omega
    have h₁ := encountered_entries he depth tail
    rw [encountered_outside ho] at h₁
    exact ⟨h₁.symm, ih ho' hc⟩

theorem mem_path_tokens {token : Token} : {names : List Identifier} → token ∈ path_tokens names →
    token.kind = .ident ∨ token.kind = .colonColon
  | [], h => by cases h
  | [name], h => by
    cases List.mem_singleton.mp h
    exact .inl rfl
  | name :: name' :: names, h => by
    simp only [path_tokens, List.map_cons, List.intersperse_cons_cons, List.mem_cons] at h
    match h with
    | .inl h => exact .inl (h ▸ rfl)
    | .inr (.inl h) => exact .inr (h ▸ rfl)
    | .inr (.inr h) =>
      have h : token ∈ path_tokens (name' :: names) := by simpa [path_tokens] using h
      exact mem_path_tokens h

mutual

theorem print_kind {token : Token} : {tree : TypeTree} → token ∈ tree.print path →
    token.kind ≠ .shiftRight
  | node root [], h => by
    intro hk
    cases mem_path_tokens (by simpa only [print] using h) <;> simp_all
  | node root (arg :: args), h => by
    simp only [print, List.mem_append, List.mem_cons] at h
    match h with
    | .inl h =>
      intro hk
      cases mem_path_tokens h <;> simp_all
    | .inr (.inl h) => simp [h]
    | .inr (.inr (.inl h)) => exact print_kind h
    | .inr (.inr (.inr h)) => exact print_arguments_kind h
  | array element, h => by
    simp only [print, List.mem_append, List.mem_cons, List.not_mem_nil, or_false] at h
    match h with
    | .inl h => exact print_kind h
    | .inr (.inl h) => simp [h]
    | .inr (.inr h) => simp [h]

theorem print_arguments_kind {token : Token} : {args : List TypeTree} →
    token ∈ print_arguments path args → token.kind ≠ .shiftRight
  | [], h => by simp [List.mem_singleton.mp h]
  | arg :: args, h => by
    simp only [print_arguments, List.mem_append, List.mem_cons] at h
    match h with
    | .inl h => simp [h]
    | .inr (.inl h) => exact print_kind h
    | .inr (.inr h) => exact print_arguments_kind h

end

end TypeTree

end Reowolf.Parser
