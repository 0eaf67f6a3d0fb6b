import Reowolf.Runtime.PortInfo

namespace Reowolf

namespace Polarity

variable {pol pol' : Polarity}

@[simp]
theorem not_not : pol.not.not = pol := by
  cases pol <;> rfl

theorem not_ne : pol.not ≠ pol := by
  cases pol <;> exact nofun

theorem eq_not_of_ne (h : pol ≠ pol') : pol = pol'.not := by
  cases pol <;> cases pol' <;> first | rfl | exact absurd rfl h

end Polarity

-- What the ports of a connector say about channels: which of them are known, with which polarity,
-- and with which peer.
abbrev Ends :=
  PortId → Option (Polarity × Option PortId)

namespace Ends

-- Peers come in pairs of a putter and a getter.
structure Paired (e : Ends) : Prop where
  symm : ∀ {p pol q}, e p = some (pol, some q) → e q = some (pol.not, some p)

def var (e : Ends) (p : PortId) : Option SpecVar :=
  match e p with
  | none              => none
  | some (.getter, _) => some p
  | some (.putter, q) => q

-- A new channel.
def pair (e : Ends) (o i : PortId) : Ends :=
  Function.update (Function.update e o (some (.putter, some i))) i (some (.getter, some o))

-- A new port without a peer.
def dangle (e : Ends) (p : PortId) (pol : Polarity) : Ends :=
  Function.update e p (some (pol, none))

-- Each of the local ports learns its peer, and the peers that are not known yet become known.
def meet (e : Ends) (met : List (PortId × MyPortInfo)) : Ends := fun p =>
  match met.find? (·.1 = p), e p with
  | some (_, info), some (pol, _) => some (pol, some info.port)
  | some _,         none          => none
  | none,           some end_     => some end_
  | none,           none          =>
    (met.find? (·.2.port = p)).map fun (l, info) => (info.polarity, some l)

variable {e : Ends} {p q r t o i : PortId} {pol pol' : Polarity} {met : List (PortId × MyPortInfo)}

-- Two ports share their variable exactly if they are each other's peers.
theorem Paired.var_eq_iff (h : Paired e) (hp : e p = some (pol, some q))
    (hr : e r = some (pol', some t)) (hne : p ≠ r) : e.var p = e.var r ↔ q = r := by
  have hq := h.symm hp
  have ht := h.symm hr
  have hback (he : q = r) : t = p ∧ pol' = pol.not := by
    subst he
    rw [hq] at hr
    cases hr
    exact ⟨rfl, rfl⟩
  cases pol <;> cases pol' <;> simp only [var, hp, hr, Option.some.injEq]
  case putter.putter =>
    constructor
    case mp =>
      intro he
      subst he
      rw [hq] at ht
      cases ht
      exact absurd rfl hne
    case mpr => exact fun he => nomatch (hback he).right
  case getter.putter =>
    constructor
    case mp =>
      intro he
      subst he
      rw [ht] at hp
      cases hp
      rfl
    case mpr => exact fun he => (hback he).left.symm
  case getter.getter => exact ⟨fun he => absurd he hne, fun he => nomatch (hback he).right⟩

theorem Paired.pair (h : Paired e) (ho : e o = none) (hi : e i = none) (hne : o ≠ i) :
    Paired (e.pair o i) := by
  refine ⟨fun {p pol q} hp => ?_⟩
  simp only [Ends.pair, Function.update_apply] at hp ⊢
  split at hp
  case isTrue he =>
    cases hp
    simp [he, hne, Polarity.not]
  case isFalse hpi =>
    split at hp
    case isTrue he =>
      cases hp
      simp [he, Polarity.not]
    case isFalse hpo =>
      have hq := h.symm hp
      have hqi : q ≠ i := fun he => nomatch hi ▸ he ▸ hq
      have hqo : q ≠ o := fun he => nomatch ho ▸ he ▸ hq
      simp [hqi, hqo, hq]

theorem Paired.dangle (h : Paired e) (hp : e p = none) : Paired (e.dangle p pol) := by
  refine ⟨fun {r pol' q} hr => ?_⟩
  simp only [Ends.dangle, Function.update_apply] at hr ⊢
  split at hr
  case isTrue  => cases hr
  case isFalse =>
    have hq := h.symm hr
    have hne : q ≠ p := fun he => nomatch hp ▸ he ▸ hq
    simp [hne, hq]

-- The infos that the local ports of `met` receive are those of the ports at the other ends.
structure Honest (e : Ends) (met : List (PortId × MyPortInfo)) : Prop where
  unconnected : ∀ {l info}, (l, info) ∈ met → ∃ pol, e l = some (pol, none) ∧ info.polarity ≠ pol
  locals      : (met.map (·.1)).Nodup
  peers       : (met.map (·.2.port)).Nodup
  -- A peer that is known already is a local port too, and receives the info of this end.
  reciprocal  : ∀ {l info}, (l, info) ∈ met → ∀ {end_}, e info.port = some end_ →
                info.polarity = end_.1 ∧ ∃ info', (info.port, info') ∈ met ∧ info'.port = l

namespace Honest

variable {info info' : MyPortInfo} {l l' : PortId}

theorem unique_info (h : Honest e met) (h₁ : (l, info) ∈ met) (h₂ : (l, info') ∈ met) :
    info = info' :=
  congrArg Prod.snd <| List.inj_on_of_nodup_map h.locals h₁ h₂ rfl

theorem unique_local (h : Honest e met) (h₁ : (l, info) ∈ met) (h₂ : (l', info') ∈ met)
    (hp : info.port = info'.port) : l = l' ∧ info = info' := by
  have he := List.inj_on_of_nodup_map h.peers h₁ h₂ hp
  exact ⟨congrArg Prod.fst he, congrArg Prod.snd he⟩

theorem meet_local (h : Honest e met) (hm : (l, info) ∈ met) :
    ∃ pol, e l = some (pol, none) ∧ info.polarity = pol.not ∧
    e.meet met l = some (pol, some info.port) := by
  obtain ⟨pol, hl, hpol⟩ := h.unconnected hm
  refine ⟨pol, hl, Polarity.eq_not_of_ne hpol, ?_⟩
  simp only [Ends.meet]
  cases hf : met.find? (·.1 = l)
  case none =>
    have := List.find?_eq_none.mp hf _ hm
    simp at this
  case some x =>
    have (l', info') := x
    have hl' : l' = l := by simpa using List.find?_some hf
    subst hl'
    cases h.unique_info hm (List.mem_of_find?_eq_some hf)
    simp [hl]

theorem meet_known {end_} (h : ∀ info, (p, info) ∉ met) (hp : e p = some end_) :
    e.meet met p = some end_ := by
  have hf : met.find? (·.1 = p) = none := by
    simp only [List.find?_eq_none, decide_eq_true_eq]
    exact fun (l, info) hm he => h info (he ▸ hm)
  simp [Ends.meet, hf, hp]

theorem meet_peer (h : Honest e met) (hm : (l, info) ∈ met) (hp : e info.port = none) :
    e.meet met info.port = some (info.polarity, some l) := by
  have hf : met.find? (·.1 = info.port) = none := by
    simp only [List.find?_eq_none, decide_eq_true_eq]
    intro (l', info') hm' he
    obtain ⟨_, hl, _⟩ := h.unconnected hm'
    have he : l' = info.port := he
    rw [he, hp] at hl
    cases hl
  simp only [Ends.meet, hf, hp]
  cases hg : met.find? (·.2.port = info.port)
  case none =>
    have := List.find?_eq_none.mp hg _ hm
    simp at this
  case some x =>
    have (l', info') := x
    have hi : info'.port = info.port := by simpa using List.find?_some hg
    obtain ⟨hl, hi⟩ := h.unique_local (List.mem_of_find?_eq_some hg) hm hi
    simp [hl, hi]

-- The ports of the new map: local ports that met their peer, ports that were known, and new peers.
theorem meet_cases {x} (hx : e.meet met p = some x) :
    (∃ info, (p, info) ∈ met) ∨ ((∀ info, (p, info) ∉ met) ∧ e p = some x) ∨
    (e p = none ∧ ∃ l info, (l, info) ∈ met ∧ info.port = p) := by
  by_cases hl : ∃ info, (p, info) ∈ met
  case pos => exact .inl hl
  case neg =>
    have hl : ∀ info, (p, info) ∉ met := fun info hm => hl ⟨info, hm⟩
    refine .inr ?_
    cases hp : e p
    case some y =>
      rw [meet_known hl hp] at hx
      exact .inl ⟨hl, hx⟩
    case none =>
      have hf : met.find? (·.1 = p) = none := by
        simp only [List.find?_eq_none, decide_eq_true_eq]
        exact fun (l, info) hm he => hl info (he ▸ hm)
      simp only [Ends.meet, hf, hp, Option.map_eq_some_iff] at hx
      obtain ⟨⟨l, info⟩, hg, _⟩ := hx
      exact .inr ⟨rfl, l, info, List.mem_of_find?_eq_some hg, by simpa using List.find?_some hg⟩

theorem paired (hh : Honest e met) (h : Paired e) : Paired (e.meet met) := by
  refine ⟨fun {p pol q} hp => ?_⟩
  cases meet_cases hp
  case inl hm =>
    obtain ⟨info, hm⟩ := hm
    obtain ⟨pol', hl, hpol, hp'⟩ := hh.meet_local hm
    cases hp'.symm.trans hp
    cases hq : e info.port
    case none => exact hpol ▸ hh.meet_peer hm hq
    case some end_ =>
      obtain ⟨hend, info', hm', hback⟩ := hh.reciprocal hm hq
      obtain ⟨pol'', hl', _, hp''⟩ := hh.meet_local hm'
      rw [hp'', hback]
      have : pol'' = end_.1 := by simp [hl'] at hq; simp [← hq]
      rw [this, ← hend, hpol]
  case inr h' =>
    cases h'
    case inl hk =>
      have hq := h.symm hk.right
      refine meet_known (fun info hm => ?_) hq
      obtain ⟨_, hl, _⟩ := hh.unconnected hm
      rw [hq] at hl
      cases hl
    case inr hk =>
      obtain ⟨hn, l, info, hm, hpi⟩ := hk
      subst hpi
      cases (hh.meet_peer hm hn).symm.trans hp
      obtain ⟨pol', _, hpol, hl⟩ := hh.meet_local hm
      rw [hl, hpol, Polarity.not_not]

end Honest
end Ends
end Reowolf
