import Mathlib.Data.List.Chain
import Reowolf.Library.Machine
import Reowolf.Library.PrefixTerms
import Reowolf.Parser.TypeRoundTrip

namespace Reowolf.Parser

-- As many complete types as the number says, each element in front of those that it embeds.
abbrev CompleteTypes (num : Nat) (variants : List ParserTypeVariant) : Prop :=
  PrefixTerms.Forest ParserTypeVariant.num_embedded num variants

def variants (entries : List Entry) : List ParserTypeVariant :=
  entries.map (·.element.variant)

-- The number of entries that are no deeper than the depth and all entries in front of them.
def roots_within : (depth : Int) → List Entry → Nat
  | _, [] => 0
  | depth, entry :: entries =>
    if entry.depth ≤ depth then roots_within entry.depth entries + 1 else roots_within depth entries

-- The number of types that are written one behind the other.
def roots : List Entry → Nat
  | [] => 0
  | entry :: entries => roots_within entry.depth entries + 1

-- What is left of the entries when a number of them has been checked, and a type without arguments
-- counts as many times more as it is to have arguments.
def unreached : (num : Nat) → List Entry → List Entry
  | 0, entries => entries
  | _ + 1, [] => []
  | num + 1, entry :: entries =>
    if encountered_subtypes entry.depth entries = 0 then
      unreached (num - entry.num_embedded) entries
    else
      unreached num entries

-- An entry is one level below the one in front of it, or it is further up.
def Nested (entries : List Entry) : Prop :=
  entries.IsChain fun entry next => next.depth ≤ entry.depth + 1

def Entry.inferred (entry : Entry) : Entry :=
  ⟨⟨.inferred, entry.element.section_at_span⟩, entry.depth + 1⟩

section

variable {depth : Int} {entry cur : Entry} {entries rest result : List Entry} {num n : Nat}
  {allow_inference : Bool}

theorem roots_within_succ (depth : Int) (entries : List Entry) :
    roots_within (depth + 1) entries = encountered_subtypes depth entries + roots_within depth entries := by
  induction entries with
  | nil => rfl
  | cons entry entries ih =>
    rw [roots_within, encountered_subtypes, roots_within]
    by_cases heq : entry.depth = depth + 1
    case pos =>
      have hgt : ¬entry.depth ≤ depth := by omega
      rw [if_pos (by omega), if_pos heq, if_neg hgt, heq, ih]
      omega
    case neg =>
      by_cases hle : entry.depth ≤ depth
      case pos => rw [if_pos (by omega), if_neg heq, if_pos hle, if_pos hle, Nat.zero_add]
      case neg => rw [if_neg (by omega), if_neg heq, if_neg hle, if_neg hle, ih]

theorem roots_eq_within (h : ∀ entry ∈ entries.head?, entry.depth ≤ depth) :
    roots entries = roots_within depth entries := by
  cases entries with
  | nil => rfl
  | cons entry entries => rw [roots, roots_within, if_pos (h entry rfl)]

-- An entry that has its arguments below it is complete if what follows is.
theorem complete_cons_iff (hn : ∀ next ∈ entries.head?, next.depth ≤ cur.depth + 1)
    (hm : cur.num_embedded = encountered_subtypes cur.depth entries) :
    CompleteTypes (roots (cur :: entries)) (variants (cur :: entries)) ↔
      CompleteTypes (roots entries) (variants entries) := by
  have hroots : roots entries = roots_within cur.depth entries + cur.num_embedded := by
    rw [roots_eq_within hn, roots_within_succ, hm, Nat.add_comm]
  rw [hroots]
  exact PrefixTerms.Forest.cons_iff

theorem check_subtypes_append (num : Nat) (checked entries : List Entry) :
    check_subtypes allow_inference num checked entries =
      (check_subtypes allow_inference num [] entries).map (checked ++ ·) := by
  induction num generalizing checked entries with
  | zero => rfl
  | succ num ih =>
    cases entries with
    | nil => simp [check_subtypes, Except.map]
    | cons cur entries =>
      have hmap (e : Except Failure (List Entry)) : e.map (checked ++ [cur] ++ ·) =
          (e.map ([cur] ++ ·)).map (checked ++ ·) := by
        cases e <;> simp [Except.map]
      simp only [check_subtypes, List.nil_append]
      rw [ih (checked ++ [cur]) entries, ih [cur] entries, ih (checked ++ [cur]), ih [cur], hmap, hmap]
      split
      case isTrue => rfl
      case isFalse =>
        split
        case isTrue => rfl
        case isFalse => split <;> rfl

-- The entry that is checked either has its arguments below it, or all of them are filled in.
theorem check_subtypes_cases
    (h : check_subtypes allow_inference (num + 1) [] (cur :: entries) = .ok result) :
    ∃ filled completed, result = cur :: completed ∧
      check_subtypes allow_inference num [] (List.replicate filled cur.inferred ++ entries) =
        .ok completed ∧
      cur.num_embedded = filled + encountered_subtypes cur.depth entries ∧
      (filled ≠ 0 → encountered_subtypes cur.depth entries = 0) := by
  simp only [check_subtypes, List.nil_append, check_subtypes_append num [cur]] at h
  split at h
  case isTrue hc =>
    obtain ⟨completed, hr, he⟩ := Except.map_eq_ok.mp h
    exact ⟨0, completed, he.symm, hr, by rw [hc, Nat.zero_add], fun h0 => absurd rfl h0⟩
  case isFalse =>
    split at h
    case isTrue => cases h
    case isFalse he =>
      have he := not_not.mp he
      split at h
      case isTrue =>
        obtain ⟨completed, hr, hc⟩ := Except.map_eq_ok.mp h
        exact ⟨cur.num_embedded, completed, hc.symm, hr, by rw [he, Nat.add_zero], fun _ => he⟩
      case isFalse => cases h

theorem encountered_inferred (h : depth < cur.depth) (n : Nat) :
    encountered_subtypes depth (List.replicate n cur.inferred ++ entries) =
      encountered_subtypes depth entries := by
  have h₁ : ¬cur.inferred.depth = depth + 1 := by
    simp only [Entry.inferred]
    omega
  have h₂ : ¬cur.inferred.depth ≤ depth := by
    simp only [Entry.inferred]
    omega
  induction n with
  | zero      => rfl
  | succ n ih =>
    rw [List.replicate_succ, List.cons_append, encountered_subtypes, if_neg h₁, if_neg h₂, ih]

-- What is filled in below an entry is not seen from further up.
theorem encountered_filled (n : Nat) :
    encountered_subtypes depth (cur :: (List.replicate n cur.inferred ++ entries)) =
      encountered_subtypes depth (cur :: entries) := by
  rw [encountered_subtypes, encountered_subtypes]
  by_cases hle : cur.depth ≤ depth
  case pos =>
    have hne : ¬cur.depth = depth + 1 := by omega
    rw [if_neg hne, if_neg hne, if_pos hle, if_pos hle]
  case neg => rw [encountered_inferred (by omega)]

theorem encountered_check_subtypes (h : check_subtypes allow_inference num [] entries = .ok result)
    (depth : Int) : encountered_subtypes depth result = encountered_subtypes depth entries := by
  induction num generalizing entries result with
  | zero =>
    cases h
    rfl
  | succ num ih =>
    cases entries with
    | nil =>
      cases h
      rfl
    | cons cur entries =>
      obtain ⟨filled, completed, hr, hc, _⟩ := check_subtypes_cases h
      have hfill : encountered_subtypes depth (cur :: (List.replicate filled cur.inferred ++ entries)) =
          encountered_subtypes depth (cur :: entries) := encountered_filled filled
      rw [hr, ← hfill, encountered_subtypes, encountered_subtypes, ih hc]

-- The arguments of the entry itself.
theorem encountered_own (h : encountered_subtypes cur.depth entries = 0) (n : Nat) :
    encountered_subtypes cur.depth (List.replicate n cur.inferred ++ entries) = n := by
  induction n with
  | zero      => exact h
  | succ n ih =>
    rw [List.replicate_succ, List.cons_append, encountered_subtypes, if_pos (by rfl), ih]

theorem head?_check_subtypes (h : check_subtypes allow_inference num [] entries = .ok result) :
    result.head? = entries.head? := by
  cases num with
  | zero =>
    cases h
    rfl
  | succ num =>
    cases entries with
    | nil =>
      cases h
      rfl
    | cons cur entries =>
      obtain ⟨_, _, hr, _⟩ := check_subtypes_cases h
      rw [hr]
      rfl

theorem depth_check_subtypes (h : check_subtypes allow_inference num [] entries = .ok result)
    (hd : ∀ entry ∈ entries, depth ≤ entry.depth) : ∀ entry ∈ result, depth ≤ entry.depth := by
  induction num generalizing entries result with
  | zero =>
    cases h
    exact hd
  | succ num ih =>
    cases entries with
    | nil =>
      cases h
      exact hd
    | cons cur entries =>
      obtain ⟨filled, completed, hr, hc, _⟩ := check_subtypes_cases h
      obtain ⟨hcur, hentries⟩ := List.forall_mem_cons.mp hd
      have hinferred : ∀ entry ∈ List.replicate filled cur.inferred, depth ≤ entry.depth := by
        intro entry hm
        rw [List.eq_of_mem_replicate hm]
        exact Int.le_add_one hcur
      rw [hr]
      exact List.forall_mem_cons.mpr ⟨hcur,
        ih hc (List.forall_mem_append.mpr ⟨hinferred, hentries⟩)⟩

theorem roots_within_eq_zero (h : ∀ entry ∈ entries, depth < entry.depth) :
    roots_within depth entries = 0 := by
  induction entries with
  | nil => rfl
  | cons entry entries ih =>
    obtain ⟨hlt, hrest⟩ := List.forall_mem_cons.mp h
    rw [roots_within, if_neg (Int.not_le.mpr hlt), ih hrest]

namespace Nested

theorem tail (h : Nested (cur :: entries)) : Nested entries :=
  List.IsChain.tail h

theorem head (h : Nested (cur :: entries)) : ∀ next ∈ entries.head?, next.depth ≤ cur.depth + 1 :=
  (List.isChain_cons.mp h).left

theorem filled (h : Nested (cur :: entries)) (n : Nat) :
    Nested (List.replicate n cur.inferred ++ entries) ∧
      ∀ next ∈ (List.replicate n cur.inferred ++ entries).head?, next.depth ≤ cur.depth + 1 := by
  induction n with
  | zero => exact ⟨h.tail, h.head⟩
  | succ n ih =>
    rw [List.replicate_succ, List.cons_append]
    refine ⟨List.isChain_cons.mpr ⟨fun next hm => ?_, ih.left⟩, fun next hm => ?_⟩
    · have hle := ih.right next hm
      simp only [Entry.inferred]
      omega
    · cases hm
      exact Int.le_refl _

-- Without arguments, the next entry is on the level of this one or further up.
theorem head_of_encountered (h : Nested (cur :: entries))
    (he : encountered_subtypes cur.depth entries = 0) :
    ∀ next ∈ entries.head?, next.depth ≤ cur.depth := by
  intro next hm
  have hle := h.head next hm
  cases entries with
  | nil => cases hm
  | cons entry entries =>
    cases hm
    by_contra hgt
    rw [encountered_subtypes, if_pos (by omega)] at he
    cases he

end Nested

theorem encountered_inferred_own (h : ∀ next ∈ entries.head?, next.depth ≤ cur.depth) (n : Nat) :
    encountered_subtypes cur.inferred.depth (List.replicate n cur.inferred ++ entries) = 0 := by
  cases n with
  | zero =>
    cases entries with
    | nil => rfl
    | cons next entries =>
      have hle := h next rfl
      have h₁ : ¬next.depth = cur.inferred.depth + 1 := by
        simp only [Entry.inferred]
        omega
      have h₂ : next.depth ≤ cur.inferred.depth := by
        simp only [Entry.inferred]
        omega
      rw [List.replicate_zero, List.nil_append, encountered_subtypes, if_neg h₁, if_pos h₂]
  | succ n =>
    have hne : ¬cur.inferred.depth = cur.inferred.depth + 1 := by omega
    rw [List.replicate_succ, List.cons_append, encountered_subtypes, if_neg hne, if_pos (Int.le_refl _)]

-- The arguments that are filled in are complete, whether the check reaches them or not.
theorem complete_unreached_filled (hn : Nested (cur :: entries))
    (he : encountered_subtypes cur.depth entries = 0) (num n : Nat) :
    CompleteTypes (roots (unreached num (List.replicate n cur.inferred ++ entries)))
        (variants (unreached num (List.replicate n cur.inferred ++ entries))) ↔
      CompleteTypes (roots (unreached (num - n) entries)) (variants (unreached (num - n) entries)) := by
  induction n generalizing num with
  | zero => exact Iff.rfl
  | succ n ih =>
    have hown := encountered_inferred_own (hn.head_of_encountered he) n
    have hnum : cur.inferred.num_embedded = 0 := rfl
    rw [List.replicate_succ, List.cons_append]
    cases num with
    | zero =>
      have hhead : ∀ next ∈ (List.replicate n cur.inferred ++ entries).head?,
          next.depth ≤ cur.inferred.depth + 1 := by
        intro next hm
        have hle := (hn.filled n).right next hm
        simp only [Entry.inferred]
        omega
      have hz := ih 0
      rw [unreached, Nat.zero_sub] at hz
      rw [unreached, complete_cons_iff hhead (hnum.trans hown.symm), Nat.zero_sub]
      exact hz
    | succ num =>
      rw [unreached, if_pos hown, hnum, Nat.sub_zero, Nat.add_sub_add_right]
      exact ih num

-- The result is complete if the entries that have not been reached are.
theorem complete_check_subtypes_iff (hn : Nested entries)
    (h : check_subtypes allow_inference num [] entries = .ok result) :
    CompleteTypes (roots result) (variants result) ↔
      CompleteTypes (roots (unreached num entries)) (variants (unreached num entries)) := by
  induction num generalizing entries result with
  | zero =>
    cases h
    rw [unreached]
    rfl
  | succ num ih =>
    cases entries with
    | nil =>
      cases h
      rw [unreached]
    | cons cur entries =>
      obtain ⟨filled, completed, hr, hc, hnum, hfilled⟩ := check_subtypes_cases h
      subst hr
      obtain ⟨hn', hhead⟩ := hn.filled filled
      rw [← head?_check_subtypes hc] at hhead
      have hmatch : cur.num_embedded = encountered_subtypes cur.depth completed := by
        rw [encountered_check_subtypes hc, hnum]
        by_cases hz : filled = 0
        case pos => rw [hz, List.replicate_zero, List.nil_append, Nat.zero_add]
        case neg => rw [encountered_own (hfilled hz), hfilled hz, Nat.add_zero]
      rw [complete_cons_iff hhead hmatch, ih hn' hc, unreached]
      split
      case isTrue he =>
        rw [he, Nat.add_zero] at hnum
        rw [hnum]
        exact complete_unreached_filled hn he num filled
      case isFalse he =>
        have hz : filled = 0 := by_contra fun hz => he (hfilled hz)
        rw [hz, List.replicate_zero, List.nil_append]

end

-- The numbers of arguments of the written entries. An entry without arguments that is reached by the
-- check counts as one that needs none, since its arguments are filled in.
def arities : (num : Nat) → List Entry → List Nat
  | 0, entries => entries.map Entry.num_embedded
  | _ + 1, [] => []
  | num + 1, entry :: entries =>
    if encountered_subtypes entry.depth entries = 0 then
      0 :: arities (num - entry.num_embedded) entries
    else
      entry.num_embedded :: arities num entries

section

variable {cur : Entry} {entries result : List Entry} {num n : Nat} {allow_inference : Bool}

theorem arities_filled (num n : Nat) :
    arities num (List.replicate n cur.inferred ++ entries) =
      List.replicate n 0 ++ arities (num - n) entries := by
  induction n generalizing num with
  | zero => rfl
  | succ n ih =>
    have hnum : cur.inferred.num_embedded = 0 := rfl
    rw [List.replicate_succ, List.replicate_succ, List.cons_append, List.cons_append]
    cases num with
    | zero =>
      have hz := ih 0
      rw [arities, Nat.zero_sub] at hz
      rw [arities, List.map_cons, hnum, Nat.zero_sub, hz]
    | succ num =>
      rw [arities, hnum, Nat.sub_zero, ite_self, Nat.add_sub_add_right, ih num]

-- The result is as complete as what is written.
theorem check_subtypes_arities (h : check_subtypes allow_inference num [] entries = .ok result)
    (n : Nat) :
    CompleteTypes n (variants result) ↔ PrefixTerms.Forest id n (arities num entries) := by
  induction num generalizing entries result n with
  | zero =>
    cases h
    have hmap : PrefixTerms.Forest id n (entries.map Entry.num_embedded) ↔
        PrefixTerms.Forest Entry.num_embedded n entries := PrefixTerms.Forest.map_iff
    rw [List.nil_append, arities, hmap]
    exact PrefixTerms.Forest.map_iff
  | succ num ih =>
    cases entries with
    | nil =>
      cases h
      exact PrefixTerms.Forest.nil_iff.trans PrefixTerms.Forest.nil_iff.symm
    | cons cur entries =>
      obtain ⟨filled, completed, hr, hc, hnum, hfilled⟩ := check_subtypes_cases h
      subst hr
      cases n with
      | zero =>
        rw [arities]
        split <;> exact ⟨nofun, nofun⟩
      | succ n =>
        have hrest := ih hc (n + cur.num_embedded)
        rw [arities_filled] at hrest
        rw [arities]
        split
        case isTrue he =>
          rw [he, Nat.add_zero] at hnum
          rw [← hnum, PrefixTerms.Forest.replicate_append_iff (show id 0 = 0 from rfl)] at hrest
          have hleaf : PrefixTerms.Forest id (n + 1) (0 :: arities (num - cur.num_embedded) entries) ↔
              PrefixTerms.Forest id n (arities (num - cur.num_embedded) entries) :=
            PrefixTerms.Forest.cons_iff
          exact PrefixTerms.Forest.cons_iff.trans (hrest.trans hleaf.symm)
        case isFalse he =>
          have hz : filled = 0 := by_contra fun hz => he (hfilled hz)
          rw [hz] at hrest
          exact PrefixTerms.Forest.cons_iff.trans (hrest.trans PrefixTerms.Forest.cons_iff.symm)

end

-- An array goes in front of an entry at its depth, which moves down together with those below it.
theorem insert_array_before_cases {elements result : List Entry} {depth : Int} {section_at_span : String}
    (h : insert_array_before elements depth section_at_span = .ok result) :
    ∃ before entry children children', elements = before ++ entry :: children ∧ entry.depth = depth ∧
      result = before ++ ⟨⟨.array, section_at_span⟩, depth⟩ :: entry.deepen :: children' ∧
      (children' = children ∨ children' = deepen_children depth children) := by
  unfold insert_array_before at h
  split at h
  case h_1 => cases h
  case h_2 index hindex =>
    obtain ⟨i, hi, hlen⟩ := Option.map_eq_some_iff.mp hindex
    obtain ⟨hlt, hdepth, _⟩ := List.findIdx?_eq_some_iff_getElem.mp hi
    rw [List.length_reverse] at hlt
    rw [List.getElem_reverse] at hdepth
    split at h
    case h_1 => cases h
    case h_2 entry children hdrop =>
      cases h
      have hsplit : elements = elements.take index ++ entry :: children := by
        rw [← hdrop, List.take_append_drop]
      have hentry : entry.depth = depth := by
        have hget : elements[index]? = some entry := by
          rw [← List.head?_drop, hdrop]
          rfl
        obtain ⟨_, hget⟩ := List.getElem?_eq_some_iff.mp hget
        subst hlen
        rw [hget] at hdepth
        exact of_decide_eq_true hdepth
      refine ⟨_, entry, children, _, hsplit, hentry, rfl, ?_⟩
      split
      · exact .inr rfl
      · exact .inl rfl

section

variable {depth : Int} {cur : Entry} {entries : List Entry}

theorem nested_deepen (h : Nested (cur :: entries)) : Nested (cur.deepen :: entries) := by
  refine List.isChain_cons.mpr ⟨fun next hm => ?_, h.tail⟩
  have hle := h.head next hm
  simp only [Entry.deepen]
  omega

theorem nested_deepen_children (h : Nested (cur :: entries)) (hd : depth ≤ cur.depth) :
    Nested (cur.deepen :: deepen_children depth entries) := by
  induction entries generalizing cur with
  | nil => exact nested_deepen h
  | cons entry entries ih =>
    rw [deepen_children]
    split
    case isTrue hle =>
      refine List.isChain_cons.mpr ⟨fun next hm => ?_, ih h.tail (by omega)⟩
      cases hm
      have hle := h.head entry rfl
      simp only [Entry.deepen]
      omega
    case isFalse => exact nested_deepen h

-- An array moves nothing further up.
theorem deepen_children_forall₂ (depth : Int) (entries : List Entry) :
    List.Forall₂ (·.depth ≤ ·.depth) entries (deepen_children depth entries) := by
  induction entries with
  | nil => exact .nil
  | cons entry entries ih =>
    rw [deepen_children]
    split
    case isTrue => exact .cons (Int.le_add_of_nonneg_right Int.one_nonneg) ih
    case isFalse => exact List.forall₂_same.mpr fun entry _ => Int.le_refl entry.depth

theorem children_forall₂ {children : List Entry}
    (h : children = entries ∨ children = deepen_children depth entries) :
    List.Forall₂ (·.depth ≤ ·.depth) (cur :: entries) (cur.deepen :: children) := by
  refine .cons (Int.le_add_of_nonneg_right Int.one_nonneg) ?_
  cases h with
  | inl h => exact h ▸ List.forall₂_same.mpr fun entry _ => Int.le_refl entry.depth
  | inr h => exact h ▸ deepen_children_forall₂ depth entries

theorem nested_children {children : List Entry} (hn : Nested (cur :: entries)) (hd : depth ≤ cur.depth)
    (h : children = entries ∨ children = deepen_children depth entries) :
    Nested (cur.deepen :: children) := by
  cases h with
  | inl h => exact h ▸ nested_deepen hn
  | inr h => exact h ▸ nested_deepen_children hn hd

theorem forall₂_mem {deeper : List Entry} (h : List.Forall₂ (·.depth ≤ ·.depth) entries deeper) :
    ∀ entry ∈ deeper, ∃ original ∈ entries, original.depth ≤ entry.depth := by
  induction h with
  | nil => exact fun _ hm => nomatch hm
  | cons hle _ ih =>
    intro entry hm
    cases List.mem_cons.mp hm with
    | inl he => exact ⟨_, .head _, he ▸ hle⟩
    | inr hm =>
      obtain ⟨original, ho, hle⟩ := ih entry hm
      exact ⟨original, .tail _ ho, hle⟩

theorem forall₂_getLast? {deeper : List Entry} (h : List.Forall₂ (·.depth ≤ ·.depth) entries deeper) :
    ∀ last ∈ deeper.getLast?, ∃ original ∈ entries.getLast?, original.depth ≤ last.depth := by
  have hr := List.forall₂_reverse_iff.mpr h
  rw [← List.head?_reverse, ← List.head?_reverse]
  intro last hm
  generalize entries.reverse = l at hr
  generalize deeper.reverse = l' at hr hm
  cases hr with
  | nil => cases hm
  | cons hle _ =>
    cases hm
    exact ⟨_, rfl, hle⟩

end

namespace TypeLoop

-- What has been read of a type with arguments: the entries below the first one, of which the next one
-- does not skip a level.
structure Written (loop : TypeLoop) : Prop where
  root   : ∃ element entries, loop.elements = ⟨element, 0⟩ :: entries ∧ ∀ entry ∈ entries, 1 ≤ entry.depth
  nested : Nested loop.elements
  level  : ∀ last ∈ loop.elements.getLast?,
    loop.angle_depth ≤ last.depth + if loop.state = .open then 1 else 0

namespace Written

variable {ctx : TypeCtx} {loop mid last : TypeLoop}

theorem goto (h : loop.Written) (hs : loop.state ≠ .open) {state : TypeState} {closed : Int}
    (hl : -closed ≤ if state = .open then 1 else 0) : (loop.goto state closed).Written := by
  refine ⟨h.root, h.nested, fun last hm => ?_⟩
  have hle := h.level last hm
  rw [if_neg hs, Int.add_zero] at hle
  exact Int.add_le_add hle hl

theorem element (h : loop.Written) (hd : 0 < loop.angle_depth) (hr : loop.consume_element ctx = .ok mid) :
    mid.Written := by
  obtain ⟨⟨element, iter⟩, _, hr⟩ := Except.bind_eq_ok.mp hr
  cases hr
  obtain ⟨root, entries, he, hall⟩ := h.root
  constructor
  case root =>
    refine ⟨root, entries ++ [⟨element, loop.angle_depth⟩], by rw [he]; rfl, ?_⟩
    exact List.forall_mem_append.mpr ⟨hall, List.forall_mem_singleton.mpr hd⟩
  case nested =>
    refine List.isChain_append.mpr ⟨h.nested, List.isChain_singleton _, fun last hm next hn => ?_⟩
    cases hn
    have hle := h.level last hm
    dsimp only
    split at hle <;> omega
  case level =>
    intro last hm
    rw [List.getLast?_concat] at hm
    cases hm
    exact Int.le_of_eq (Int.add_zero _).symm

theorem array (h : loop.Written) (hd : 0 < loop.angle_depth) (hr : loop.consume_array = .ok mid) :
    mid.Written := by
  unfold consume_array at hr
  dsimp only at hr
  split at hr
  case isFalse => cases hr
  case isTrue =>
    obtain ⟨elements, hinsert, hr⟩ := Except.bind_eq_ok.mp hr
    cases hr
    obtain ⟨before, entry, children, children', he, hdepth, hresult, hchildren⟩ :=
      insert_array_before_cases hinsert
    obtain ⟨root, entries, hroot, hall⟩ := h.root
    subst hresult
    obtain ⟨hbefore, hentry, hbetween⟩ := List.isChain_append.mp (he ▸ h.nested)
    have hdeeper : List.Forall₂ (·.depth ≤ ·.depth) (entry :: children) (entry.deepen :: children') :=
      children_forall₂ hchildren
    constructor
    case root =>
      cases before with
      | nil =>
        cases he.symm.trans hroot
        cases hdepth.symm ▸ hd
      | cons first before =>
        cases he.symm.trans hroot
        obtain ⟨hall, hbelow⟩ := List.forall_mem_append.mp hall
        refine ⟨root, _, rfl, List.forall_mem_append.mpr ⟨hall, List.forall_mem_cons.mpr ⟨hd, ?_⟩⟩⟩
        intro entry hm
        obtain ⟨original, ho, hle⟩ := forall₂_mem hdeeper entry hm
        exact Int.le_trans (hbelow original ho) hle
    case nested =>
      refine List.isChain_append.mpr ⟨hbefore, ?_, fun last hm next hn => ?_⟩
      · have hbelow := nested_children hentry (Int.le_of_eq hdepth.symm) hchildren
        refine List.isChain_cons.mpr ⟨fun next hn => ?_, hbelow⟩
        cases hn
        exact Int.le_of_eq (congrArg (· + 1) hdepth)
      · cases hn
        rw [← hdepth]
        exact hbetween last hm entry rfl
    case level =>
      intro last hm
      dsimp only at hm ⊢
      rw [List.getLast?_append_of_ne_nil _ (List.cons_ne_nil _ _), List.getLast?_cons_cons] at hm
      obtain ⟨original, ho, hle⟩ := forall₂_getLast? hdeeper last hm
      have ho : original ∈ loop.elements.getLast? := by
        rw [he, List.getLast?_append_of_ne_nil _ (List.cons_ne_nil _ _)]
        exact ho
      exact Int.le_trans (h.level original ho) (Int.add_le_add_right hle _)

theorem round (h : loop.Written) (hd : 0 < loop.angle_depth) (hr : loop.round ctx = .ok mid) :
    mid.Written := by
  unfold TypeLoop.round at hr
  split at hr
  case h_1 hs =>
    have hs : loop.state ≠ .open := hs ▸ nofun
    split at hr
    case h_5 => exact h.array hd hr
    case h_6 => cases hr
    all_goals
      cases hr
      exact h.goto hs (by decide)
  case h_2 => exact h.element hd hr
  case h_3 hs =>
    have hs : loop.state ≠ .open := hs ▸ nofun
    split at hr
    case h_4 => exact h.array hd hr
    case h_5 => cases hr
    all_goals
      cases hr
      exact h.goto hs (by decide)
  case h_4 hs =>
    have hs : loop.state ≠ .open := hs ▸ nofun
    split at hr
    case h_1 => exact h.element hd hr
    case h_4 => cases hr
    all_goals
      cases hr
      exact h.goto hs (by decide)

theorem run {fuel : Nat} (h : loop.Written) (hd : 0 < loop.angle_depth)
    (hr : loop.run ctx fuel = .ok last) : last.Written := by
  induction fuel generalizing loop with
  | zero => cases hr
  | succ fuel ih =>
    obtain ⟨mid, hround, hr⟩ := Except.bind_eq_ok.mp hr
    have hmid := h.round hd hround
    split at hr
    case isTrue => cases hr
    case isFalse hneg =>
      split at hr
      case isTrue =>
        cases hr
        exact hmid
      case isFalse hne => exact ih hmid (by omega) hr

theorem first (element : ParserTypeElement) (iter : TokenIter) :
    Written ⟨.open, 1, [⟨element, 0⟩], iter⟩ where
  root := ⟨element, [], rfl, nofun⟩
  nested := List.isChain_singleton _
  level := by
    intro last hm
    cases hm
    exact Int.le_refl _

end Written

-- The types in the result of the check have one root like those that are written.
theorem Written.roots_check {loop : TypeLoop} {allow_inference : Bool} {num : Nat} {result : List Entry}
    (h : loop.Written) (hc : check_subtypes allow_inference num [] loop.elements = .ok result) :
    roots result = 1 := by
  obtain ⟨root, entries, he, hall⟩ := h.root
  rw [he] at hc
  cases num with
  | zero =>
    cases hc
    exact congrArg (· + 1) (roots_within_eq_zero fun entry hm => hall entry hm)
  | succ num =>
    obtain ⟨filled, completed, hr, hrest, _⟩ := check_subtypes_cases hc
    subst hr
    have hinferred : ∀ entry ∈ List.replicate filled (Entry.inferred ⟨root, 0⟩), 1 ≤ entry.depth := by
      intro entry hm
      rw [List.eq_of_mem_replicate hm]
      exact Int.le_refl _
    have hcompleted := depth_check_subtypes hrest (List.forall_mem_append.mpr ⟨hinferred, hall⟩)
    exact congrArg (· + 1) (roots_within_eq_zero fun entry hm => hcompleted entry hm)

end TypeLoop

-- What the loop has read when a type has polymorphic arguments.
def ReadsArguments (ctx : TypeCtx) (first_angle_depth : Nat) (iter : TokenIter) (loop : TypeLoop) :
    Prop :=
  ∃ element next, consume_parser_type_ident ctx iter = .ok (element, next) ∧
    next.next = some .openAngle ∧
    TypeLoop.run ctx (next.length + 1) ⟨.open, first_angle_depth + 1, [⟨element, 0⟩], next.consume⟩ =
      .ok loop

-- The check goes over as many elements as are written, the inferred ones among them. The types that it
-- does not come to have to be complete. Behind an angle brace that is open already, the depth of the
-- arguments does not say which type they are for, so that their number is all there is.
def Completed (first_angle_depth : Nat) (entries : List Entry) : Prop :=
  if first_angle_depth = 0 then
    let rest := unreached entries.length entries
    CompleteTypes (roots rest) (variants rest)
  else
    PrefixTerms.Forest id 1 (arities entries.length entries)

theorem consume_arrays_variant {fuel : Nat} {elements result : List ParserTypeElement}
    {iter rest : TokenIter} (h : consume_arrays fuel elements iter = .ok (result, rest))
    (ha : ∀ element ∈ elements, element.variant = .array) :
    ∀ element ∈ result, element.variant = .array := by
  induction fuel generalizing elements iter with
  | zero => cases h
  | succ fuel ih =>
    rw [consume_arrays] at h
    split at h
    case isTrue =>
      obtain ⟨_, _, h⟩ := Except.bind_eq_ok.mp h
      exact ih h (List.forall_mem_append.mpr ⟨ha, List.forall_mem_singleton.mpr rfl⟩)
    case isFalse =>
      cases h
      exact ha

-- A type whose arguments are all left out, behind the arrays that are around it.
theorem complete_elided {arrays : List ParserTypeElement}
    (h : ∀ element ∈ arrays, element.variant = .array) (element : ParserTypeElement) :
    CompleteTypes 1 ((arrays ++ element :: List.replicate element.variant.num_embedded
      ⟨.inferred, element.section_at_span⟩).map (·.variant)) := by
  induction arrays with
  | nil =>
    have hinferred : ParserTypeVariant.inferred.num_embedded = 0 := rfl
    rw [List.nil_append, List.map_cons, List.map_replicate, ← List.append_nil (List.replicate ..)]
    exact .cons ((PrefixTerms.Forest.replicate_append_iff hinferred).mpr .nil)
  | cons array arrays ih =>
    obtain ⟨harray, h⟩ := List.forall_mem_cons.mp h
    apply PrefixTerms.Forest.cons
    dsimp only
    rw [harray]
    exact ih h

theorem complete_written {loop : TypeLoop} {ctx : TypeCtx} {first_angle_depth fuel : Nat}
    {element : ParserTypeElement} {iter : TokenIter} {allow_inference : Bool} {result : List Entry}
    (hr : TypeLoop.run ctx fuel ⟨.open, first_angle_depth + 1, [⟨element, 0⟩], iter⟩ = .ok loop)
    (hc : check_subtypes allow_inference loop.elements.length [] loop.elements = .ok result) :
    CompleteTypes 1 (variants result) ↔ Completed first_angle_depth loop.elements := by
  unfold Completed
  split
  case isTrue hz =>
    subst hz
    have hw : loop.Written := (TypeLoop.Written.first element iter).run Int.one_pos hr
    rw [← complete_check_subtypes_iff hw.nested hc, hw.roots_check hc]
  case isFalse => exact check_subtypes_arities hc 1

-- A type is one complete type if it has no arguments that are written out, or if the arguments behind
-- those that the check comes to are complete.
theorem consume_parser_type_complete_iff {ctx : TypeCtx} {first_angle_depth : Nat} {iter rest : TokenIter}
    {elements : List ParserTypeElement}
    (h : consume_parser_type ctx first_angle_depth iter = .ok (elements, rest)) :
    CompleteTypes 1 (elements.map (·.variant)) ↔
      ∀ loop, ReadsArguments ctx first_angle_depth iter loop →
        Completed first_angle_depth loop.elements := by
  obtain ⟨⟨element, next⟩, hident, h⟩ := Except.bind_eq_ok.mp h
  dsimp only at h
  split at h
  case isTrue hopen =>
    obtain ⟨loop, hrun, h⟩ := Except.bind_eq_ok.mp h
    obtain ⟨result, hc, h⟩ := Except.bind_eq_ok.mp h
    cases h
    rw [List.map_map]
    refine (complete_written hrun hc).trans ⟨fun hcompleted loop' hreads => ?_, fun hcompleted => ?_⟩
    · obtain ⟨_, _, hident', _, hrun'⟩ := hreads
      cases hident.symm.trans hident'
      cases hrun.symm.trans hrun'
      exact hcompleted
    · exact hcompleted loop ⟨element, next, hident, hopen, hrun⟩
  case isFalse hopen =>
    obtain ⟨⟨arrays, next⟩, harrays, h⟩ := Except.bind_eq_ok.mp h
    dsimp only at h
    split at h
    case isTrue => cases h
    case isFalse =>
      obtain ⟨_, _, h⟩ := Except.bind_eq_ok.mp h
      cases h
      have hcomplete := complete_elided (consume_arrays_variant harrays nofun) element
      refine iff_of_true hcomplete ?_
      rintro loop ⟨_, _, hident', hopen', _⟩
      cases hident.symm.trans hident'
      exact absurd hopen' hopen

-- A module that defines a type `Foo` with two polymorphic variables.
def pair_ctx : TypeCtx := { TypeTree.foo_ctx with num_poly_vars := fun _ => 2 }

-- Of `Foo<Foo, Foo>` the last argument is left without arguments of its own.
theorem pair_not_complete :
    pair_ctx.allow_inference = true ∧
      consume_parser_type pair_ctx 0 [.ident "Foo", .of .openAngle, .ident "Foo", .of .comma,
          .ident "Foo", .of .closeAngle] =
        .ok ([⟨.definition 6 2, "Foo"⟩, ⟨.definition 6 2, "Foo"⟩, ⟨.inferred, "Foo"⟩,
          ⟨.inferred, "Foo"⟩, ⟨.definition 6 2, "Foo"⟩], []) ∧
      ¬CompleteTypes 1 [.definition 6 2, .definition 6 2, .inferred, .inferred, .definition 6 2] := by
  refine ⟨rfl, rfl, fun h => ?_⟩
  cases h with
  | cons h => cases h with
    | cons h => cases h with
      | cons h => cases h with
        | cons h => cases h with
          | cons h => cases h

-- Of `Foo<Foo, u32>` everything is complete: the check does not come to the last argument either, but
-- that one needs nothing.
theorem consume_parser_type_complete_pair :
    consume_parser_type pair_ctx 0 [.ident "Foo", .of .openAngle, .ident "Foo", .of .comma,
        .ident "u32", .of .closeAngle] = .ok ([⟨.definition 6 2, "Foo"⟩, ⟨.definition 6 2, "Foo"⟩,
        ⟨.inferred, "Foo"⟩, ⟨.inferred, "Foo"⟩, ⟨.uint32, "u32"⟩], []) ∧
      CompleteTypes 1 [.definition 6 2, .definition 6 2, .inferred, .inferred, .uint32] := by
  have h : consume_parser_type pair_ctx 0 [.ident "Foo", .of .openAngle, .ident "Foo", .of .comma,
      .ident "u32", .of .closeAngle] = .ok ([⟨.definition 6 2, "Foo"⟩, ⟨.definition 6 2, "Foo"⟩,
      ⟨.inferred, "Foo"⟩, ⟨.inferred, "Foo"⟩, ⟨.uint32, "u32"⟩], []) := rfl
  refine ⟨h, (consume_parser_type_complete_iff h).mpr ?_⟩
  rintro loop ⟨element, next, hident, _, hrun⟩
  cases hident
  cases hrun
  exact PrefixTerms.Forest.singleton rfl

end Reowolf.Parser
