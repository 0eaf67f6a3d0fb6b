import Reowolf.Parser.TypeSyntax

namespace Reowolf.Parser

theorem peek_ident_eq_some {iter : TokenIter} {text} (h : peek_ident iter = some text) :
    ∃ token rest, iter = token :: rest ∧ token.kind = .ident ∧ token.text = text := by
  match iter, h with
  | token :: rest, h =>
    simp only [peek_ident, Option.ite_none_right_eq_some, Option.some.injEq] at h
    exact ⟨token, rest, rfl, h⟩

theorem consume_any_ident_ok {iter iter' : TokenIter} {text}
    (h : consume_any_ident iter = .ok (text, iter')) :
    ∃ token, iter = token :: iter' ∧ token.kind = .ident ∧ token.text = text := by
  simp only [consume_any_ident] at h
  split at h
  case h_1 found hf =>
    obtain ⟨token, rest, hi, hk, ht⟩ := peek_ident_eq_some hf
    cases hi
    cases h
    exact ⟨token, rfl, hk, ht⟩
  case h_2 => cases h

theorem consume_any_ident_cons {token : Token} (h : token.kind = .ident) (iter : TokenIter) :
    consume_any_ident (token :: iter) = .ok (token.text, iter) := by
  simp [consume_any_ident, peek_ident, h]

theorem consume_token_ok {iter iter' : TokenIter} {kind}
    (h : consume_token iter kind = .ok iter') :
    ∃ token, iter = token :: iter' ∧ token.kind = kind := by
  simp only [consume_token] at h
  split at h
  case isTrue hk =>
    cases iter
    case nil => cases hk
    case cons token rest =>
      cases h
      exact ⟨token, rfl, Option.some.inj hk⟩
  case isFalse => cases h

-- What is consumed determines the result, whatever comes after it.
def Local {α : Type} (f : TokenIter → Except Failure (α × TokenIter)) (pre : List Token) (a : α) :
    Prop :=
  ∀ iter, f (pre ++ iter) = .ok (a, iter)

theorem consume_symbol_path_ok {ctx : TypeCtx} {fuel symbol text section_at_span iter element iter'}
    (h : consume_symbol_path ctx fuel symbol text section_at_span iter = .ok (element, iter')) :
    ∃ pre, iter = pre ++ iter' ∧ (∀ token ∈ pre, token.kind ≠ .closeAngle) ∧
      ∀ fuel, pre.length < fuel →
        Local (consume_symbol_path ctx fuel symbol text section_at_span) pre element := by
  induction fuel generalizing symbol text section_at_span iter
  case zero => cases h
  case succ fuel ih =>
    simp only [consume_symbol_path] at h
    split at h
    case h_1 definition hs =>
      cases h
      refine ⟨[], rfl, by simp, fun fuel hf iter => ?_⟩
      obtain ⟨fuel, rfl⟩ := Nat.exists_eq_succ_of_ne_zero (Nat.ne_of_gt hf)
      simp [consume_symbol_path, hs]
    case h_2 root_id _ hs =>
      split at h
      case isFalse => cases h
      case isTrue hn =>
        obtain ⟨iter₁, h₁, h⟩ := Except.bind_eq_ok.mp h
        obtain ⟨⟨next_text, iter₂⟩, h₂, h⟩ := Except.bind_eq_ok.mp h
        obtain ⟨colons, hi₁, hc⟩ := consume_token_ok h₁
        obtain ⟨name, hi₂, hk, ht⟩ := consume_any_ident_ok h₂
        subst hi₁ hi₂ ht
        dsimp only at h
        split at h
        case h_2 => cases h
        case h_1 new_symbol hn' =>
          obtain ⟨pre, hi, hp, hl⟩ := ih h
          refine ⟨colons :: name :: pre, by rw [hi]; rfl, by simpa [hc, hk] using hp, ?_⟩
          intro fuel hf iter
          obtain ⟨fuel, rfl⟩ := Nat.exists_eq_succ_of_ne_zero (Nat.ne_of_gt (Nat.zero_lt_of_lt hf))
          have hl := hl fuel (by simp at hf; omega) iter
          simp only [List.cons_append, consume_symbol_path, hs, TokenIter.next_cons, hc, if_true,
            consume_token_cons hc, consume_any_ident_cons hk, bind, Except.bind, hn']
          exact hl

theorem consume_parser_type_ident_ok {ctx : TypeCtx} {iter element iter'}
    (h : consume_parser_type_ident ctx iter = .ok (element, iter')) :
    ∃ pre, pre ≠ [] ∧ iter = pre ++ iter' ∧ (∀ token ∈ pre, token.kind ≠ .closeAngle) ∧
      Local (consume_parser_type_ident ctx) pre element := by
  obtain ⟨⟨text, iter₁⟩, h₁, h⟩ := Except.bind_eq_ok.mp h
  obtain ⟨token, hi, hk, ht⟩ := consume_any_ident_ok h₁
  subst hi ht
  have single : ∀ {element}, (∀ iter, consume_parser_type_ident ctx (token :: iter) =
      .ok (element, iter)) → ∃ pre, pre ≠ [] ∧ token :: iter₁ = pre ++ iter₁ ∧
        (∀ token ∈ pre, token.kind ≠ .closeAngle) ∧
          Local (consume_parser_type_ident ctx) pre element :=
    fun hl => ⟨[token], by simp, rfl, by simp [hk], hl⟩
  dsimp only at h
  split at h
  case h_1 variant hb =>
    split at h
    case isTrue => cases h
    case isFalse hi =>
      cases h
      refine single fun iter => ?_
      simp only [consume_parser_type_ident, consume_any_ident_cons hk, bind, Except.bind, hb, hi,
        if_false]
  case h_2 hb =>
    split at h
    case h_1 idx hp =>
      cases h
      refine single fun iter => ?_
      simp [consume_parser_type_ident, consume_any_ident_cons hk, bind, Except.bind, hb, hp]
    case h_2 hp =>
      split at h
      case h_1 => cases h
      case h_2 symbol hs =>
        obtain ⟨pre, hi, ha, hl⟩ := consume_symbol_path_ok h
        refine ⟨token :: pre, by simp, by rw [hi]; rfl, by simpa [hk] using ha, fun iter => ?_⟩
        have hl := hl ((pre ++ iter).length + 1) (by rw [List.length_append]; omega) iter
        simp only [List.cons_append, consume_parser_type_ident, consume_any_ident_cons hk, bind,
          Except.bind, hb, hp, hs]
        exact hl

namespace TypeLoop

variable {ctx : TypeCtx} {loop mid last : TypeLoop}

-- A round reads no more than what it consumes.
structure Reads (ctx : TypeCtx) (loop mid : TypeLoop) (pre : List Token) : Prop where
  ne_nil   : pre ≠ []
  iter     : loop.iter = pre ++ mid.iter
  round_eq : ∀ iter, round ctx { loop with iter := pre ++ iter } = .ok { mid with iter := iter }

-- A round without a closing angle brace.
def Plain (ctx : TypeCtx) (loop mid : TypeLoop) : Prop :=
  ∃ pre, Reads ctx loop mid pre ∧ ∀ token ∈ pre, token.kind ≠ .closeAngle

-- A round that closes one angle brace.
def Closes (ctx : TypeCtx) (loop mid : TypeLoop) : Prop :=
  loop.state ≠ .open ∧ mid = loop.goto .close 1 ∧
    ∃ token, Reads ctx loop mid [token] ∧ token.kind = .closeAngle

theorem reads_goto {kind state closed} (hn : loop.iter.next = some kind)
    (hr : ∀ iter : TokenIter, iter.next = some kind →
      round ctx { loop with iter := iter } = .ok (goto { loop with iter := iter } state closed)) :
    ∃ token, Reads ctx loop (loop.goto state closed) [token] ∧ token.kind = kind := by
  obtain ⟨token, rest, hi, hk⟩ := TokenIter.next_eq_some hn
  exact ⟨token, ⟨by simp, by simp [goto, hi], fun iter => hr _ (by simp [hk])⟩, hk⟩

theorem plain_goto {kind state closed} (hn : loop.iter.next = some kind) (hk : kind ≠ .closeAngle)
    (hr : ∀ iter : TokenIter, iter.next = some kind →
      round ctx { loop with iter := iter } = .ok (goto { loop with iter := iter } state closed)) :
    Plain ctx loop (loop.goto state closed) := by
  obtain ⟨token, hr, ht⟩ := reads_goto hn hr
  exact ⟨[token], hr, by simpa [ht] using hk⟩

theorem closes_goto (hs : loop.state ≠ .open) (hn : loop.iter.next = some .closeAngle)
    (hr : ∀ iter : TokenIter, iter.next = some .closeAngle →
      round ctx { loop with iter := iter } = .ok (goto { loop with iter := iter } .close 1)) :
    Closes ctx loop (loop.goto .close 1) :=
  ⟨hs, rfl, reads_goto hn hr⟩

theorem plain_element (h : loop.consume_element ctx = .ok mid)
    (hr : ∀ iter : TokenIter, iter.next = loop.iter.next →
      round ctx { loop with iter := iter } = consume_element ctx { loop with iter := iter }) :
    Plain ctx loop mid := by
  obtain ⟨⟨element, iter⟩, h₁, h⟩ := Except.bind_eq_ok.mp h
  obtain ⟨pre, hne, hi, hp, hl⟩ := consume_parser_type_ident_ok h₁
  cases h
  have hn iter : TokenIter.next (pre ++ iter) = loop.iter.next := by
    rw [hi, TokenIter.next_append hne, TokenIter.next_append hne]
  exact ⟨pre, ⟨hne, hi, fun iter => by
    simp only [hr _ (hn iter), consume_element, hl iter, bind, Except.bind]⟩, hp⟩

theorem plain_array (hn : loop.iter.next = some .openSquare) (h : loop.consume_array = .ok mid)
    (hr : ∀ iter : TokenIter, iter.next = some .openSquare →
      round ctx { loop with iter := iter } = consume_array { loop with iter := iter }) :
    Plain ctx loop mid := by
  obtain ⟨token, rest, hi, hk⟩ := TokenIter.next_eq_some hn
  simp only [consume_array, hi, TokenIter.consume_cons] at h
  split at h
  case isFalse => cases h
  case isTrue hc =>
    obtain ⟨close, rest', hi', hk'⟩ := TokenIter.next_eq_some hc
    obtain ⟨elements, he, h⟩ := Except.bind_eq_ok.mp h
    subst hi'
    cases h
    refine ⟨[token, close], ⟨by simp, hi, fun iter => ?_⟩, by simp [hk, hk']⟩
    have hn : TokenIter.next (token :: close :: iter) = some .openSquare := congrArg some hk
    simp only [List.cons_append, List.nil_append, hr _ hn, consume_array, TokenIter.consume_cons,
      TokenIter.next_cons, hk', if_true]
    exact Except.bind_eq_ok.mpr ⟨elements, he, rfl⟩

theorem round_ok (h : loop.round ctx = .ok mid) (hs : loop.iter.next ≠ some .shiftRight) :
    Plain ctx loop mid ∨ Closes ctx loop mid := by
  obtain ⟨state, angle_depth, elements, iter⟩ := loop
  cases state
  case ident =>
    simp only [round] at h
    split at h
    case h_1 hn => cases h; exact .inl (plain_goto hn (by decide) fun _ hi => by simp [round, hi])
    case h_2 hn => cases h; exact .inr (closes_goto (by simp) hn fun _ hi => by simp [round, hi])
    case h_3 hn => exact absurd hn hs
    case h_4 hn => cases h; exact .inl (plain_goto hn (by decide) fun _ hi => by simp [round, hi])
    case h_5 hn => exact .inl (plain_array hn h fun _ hi => by simp [round, hi])
    case h_6 => cases h
  case «open» => exact .inl (plain_element h fun _ _ => rfl)
  case close =>
    simp only [round] at h
    split at h
    case h_1 hn => cases h; exact .inl (plain_goto hn (by decide) fun _ hi => by simp [round, hi])
    case h_2 hn => cases h; exact .inr (closes_goto (by simp) hn fun _ hi => by simp [round, hi])
    case h_3 hn => exact absurd hn hs
    case h_4 hn => exact .inl (plain_array hn h fun _ hi => by simp [round, hi])
    case h_5 => cases h
  case comma =>
    simp only [round] at h
    split at h
    case h_1 hn => exact .inl (plain_element h fun _ hi => by simp [round, hi, hn])
    case h_2 hn => cases h; exact .inr (closes_goto (by simp) hn fun _ hi => by simp [round, hi])
    case h_3 hn => exact absurd hn hs
    case h_4 => cases h

theorem round_shiftRight (hn : loop.iter.next = some .shiftRight) :
    loop.round ctx = if loop.state = .open then .error (.parseError "expected an identifier")
      else .ok (loop.goto .close 2) := by
  obtain ⟨state, angle_depth, elements, iter⟩ := loop
  cases state
  case «open» =>
    obtain ⟨token, rest, hi, hk⟩ := TokenIter.next_eq_some hn
    dsimp only at hi
    subst hi
    simp [round, consume_element, consume_parser_type_ident, consume_any_ident, peek_ident, hk, bind,
      Except.bind]
  case ident | close | comma => simp [round, hn]

theorem round_suffix (h : loop.round ctx = .ok mid) :
    ∃ pre, pre ≠ [] ∧ loop.iter = pre ++ mid.iter := by
  if hn : loop.iter.next = some .shiftRight then
    rw [round_shiftRight hn] at h
    split at h
    case isTrue => cases h
    case isFalse =>
      cases h
      obtain ⟨token, rest, hi, _⟩ := TokenIter.next_eq_some hn
      exact ⟨[token], by simp, by simp [goto, hi]⟩
  else
    match round_ok h hn with
    | .inl ⟨pre, h, _⟩ => exact ⟨pre, h.ne_nil, h.iter⟩
    | .inr ⟨_, _, token, h, _⟩ => exact ⟨[token], h.ne_nil, h.iter⟩

theorem round_length (h : loop.round ctx = .ok mid) : mid.iter.length < loop.iter.length := by
  obtain ⟨pre, hne, hi⟩ := round_suffix h
  have := List.length_pos_of_ne_nil hne
  rw [hi, List.length_append]
  omega

-- One or more rounds, of which none but the last one closes the last angle brace.
inductive Rounds (ctx : TypeCtx) : TypeLoop → TypeLoop → Prop
  | last {loop last : TypeLoop} : loop.round ctx = .ok last → Rounds ctx loop last
  | more {loop mid last : TypeLoop} :
    loop.round ctx = .ok mid → 0 < mid.angle_depth → Rounds ctx mid last → Rounds ctx loop last

theorem Rounds.run (h : Rounds ctx loop last) {fuel} (hf : loop.iter.length < fuel) :
    ∃ fuel', last.iter.length < fuel' ∧
      loop.run ctx fuel =
        if last.angle_depth < 0 then .error (.parseError "unmatched '>'")
        else if last.angle_depth = 0 then .ok last
        else last.run ctx fuel' := by
  induction h generalizing fuel
  case last hr =>
    match fuel, hf with
    | fuel + 1, hf =>
      have hl := round_length hr
      exact ⟨fuel, by omega, by simp [TypeLoop.run, hr, bind, Except.bind]⟩
  case more mid last hr hd _ ih =>
    match fuel, hf with
    | fuel + 1, hf =>
      have hl := round_length hr
      obtain ⟨fuel', hf', he⟩ := ih (by omega : _ < fuel)
      have h₁ : ¬mid.angle_depth < 0 := by omega
      have h₂ : ¬mid.angle_depth = 0 := by omega
      exact ⟨fuel', hf', by simp only [TypeLoop.run, hr, bind, Except.bind, h₁, h₂, if_false, he]⟩

theorem Rounds.trans (h : Rounds ctx loop mid) (hd : 0 < mid.angle_depth)
    (h' : Rounds ctx mid last) : Rounds ctx loop last := by
  induction h
  case last hr => exact .more hr hd h'
  case more hr hd' _ ih => exact .more hr hd' (ih hd h')

theorem Rounds.suffix (h : Rounds ctx loop last) : ∃ pre, loop.iter = pre ++ last.iter := by
  induction h
  case last hr =>
    obtain ⟨pre, _, hi⟩ := round_suffix hr
    exact ⟨pre, hi⟩
  case more hr _ _ ih =>
    obtain ⟨pre, _, hi⟩ := round_suffix hr
    obtain ⟨pre', hi'⟩ := ih
    exact ⟨pre ++ pre', by rw [hi, hi', List.append_assoc]⟩

-- What is left to do after a round.
def Ends (ctx : TypeCtx) (mid last : TypeLoop) : Prop :=
  mid = last ∨ 0 < mid.angle_depth ∧ Rounds ctx mid last

theorem rounds_iff :
    Rounds ctx loop last ↔ ∃ mid, loop.round ctx = .ok mid ∧ Ends ctx mid last := by
  constructor
  case mp =>
    intro
    | .last hr => exact ⟨last, hr, .inl rfl⟩
    | .more hr hd h => exact ⟨_, hr, .inr ⟨hd, h⟩⟩
  case mpr =>
    rintro ⟨mid, hr, h⟩
    cases h
    case inl h => exact .last (h ▸ hr)
    case inr h => exact .more hr h.1 h.2

theorem Ends.suffix (h : Ends ctx mid last) : ∃ pre, mid.iter = pre ++ last.iter := by
  cases h
  case inl h => exact ⟨[], by rw [h]; rfl⟩
  case inr h => exact h.2.suffix

-- Two closing angle braces that are one token are read like two tokens, as long as the loop does not
-- end in between.
theorem Rounds.glued {tokens glued : List Token} (hg : Glued tokens glued)
    (hs : ∀ token ∈ tokens, token.kind ≠ .shiftRight) (hi : loop.iter = tokens ++ last.iter)
    (h : Rounds ctx loop last) :
    Rounds ctx { loop with iter := glued ++ last.iter } last := by
  induction hn : tokens.length using Nat.strong_induction_on generalizing tokens glued loop
  case h n ih =>
    obtain ⟨mid, hr, he⟩ := rounds_iff.mp h
    -- The induction hypothesis, behind a round that reads glued tokens.
    have finish {mid : TypeLoop} (tokens' glued' : List Token) (he : Ends ctx mid last)
        (hl : tokens'.length < n) (hg : Glued tokens' glued')
        (hs : ∀ token ∈ tokens', token.kind ≠ .shiftRight) (hi : mid.iter = tokens' ++ last.iter)
        (hr : round ctx { loop with iter := glued ++ last.iter } =
          .ok { mid with iter := glued' ++ last.iter }) :
        Rounds ctx { loop with iter := glued ++ last.iter } last := by
      refine rounds_iff.mpr ⟨_, hr, ?_⟩
      cases he
      case inl he =>
        have ht : tokens' = [] := List.append_left_eq_self.mp (hi.symm.trans (he ▸ rfl))
        subst ht
        cases hg
        exact .inl (by rw [← he]; rfl)
      case inr he => exact .inr ⟨he.1, ih _ hl hg hs hi he.2 rfl⟩
    obtain ⟨tokens', hi'⟩ := he.suffix
    have split {pre} (hp : loop.iter = pre ++ mid.iter) : tokens = pre ++ tokens' := by
      rw [hi, hi', ← List.append_assoc] at hp
      exact List.append_cancel_right hp
    obtain ⟨pre, hne, hp⟩ := round_suffix hr
    have ht := split hp
    subst ht
    have hns : loop.iter.next ≠ some .shiftRight := by
      match pre, hne with
      | token :: pre, _ =>
        rw [hi]
        exact fun h => hs token (by simp) (Option.some.inj h)
    match round_ok hr hns with
    | .inl ⟨pre', hp', ha⟩ =>
      cases List.append_cancel_right (split hp'.iter)
      obtain ⟨glued', he', hg'⟩ := hg.of_append ha
      subst he'
      refine finish tokens' glued' he ?_ hg' (fun token h => hs token (by simp [h])) hi' ?_
      · have := List.length_pos_of_ne_nil hne
        rw [← hn, List.length_append]
        omega
      · rw [List.append_assoc]
        exact hp'.round_eq _
    | .inr ⟨hstate, hm, token, hp', ha⟩ =>
      cases List.append_cancel_right (split hp'.iter)
      generalize ht : [token] ++ tokens' = tokens at hg hn
      cases hg
      case nil => cases ht
      case keep hg =>
        cases ht
        exact finish tokens' _ he (by rw [← hn]; simp) hg
          (fun token h => hs token (by simp [h])) hi' (hp'.round_eq _)
      case glue b tokens'' glued'' _ hb hg =>
        cases ht
        -- The loop does not end between the two angle braces.
        obtain ⟨mid', hr', he'⟩ : ∃ mid', mid.round ctx = .ok mid' ∧ Ends ctx mid' last := by
          cases he
          case inl he =>
            have := congrArg List.length hi'
            rw [he, List.length_append, List.length_cons] at this
            omega
          case inr he => exact rounds_iff.mp he.2
        have hm' : mid' = mid.goto .close 1 := by
          have hn : mid.iter.next = some .closeAngle := by simp [hi', hb]
          have hs : mid.state = .close := by rw [hm]; rfl
          simp only [round, hs, hn] at hr'
          exact (Except.ok.inj hr').symm
        have hi'' : mid'.iter = tokens'' ++ last.iter := by
          rw [hm']
          simp [goto, hi']
        refine finish tokens'' glued'' he' (by simp only [← hn, List.length_cons]; omega) hg
          (fun token h => hs token (by simp [h])) hi'' ?_
        rw [List.cons_append, round_shiftRight rfl, if_neg hstate, hm', hm]
        simp only [goto, TokenIter.consume_cons]
        congr 2
        omega

end TypeLoop

end Reowolf.Parser
