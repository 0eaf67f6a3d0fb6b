import Reowolf.Runtime.AddComponent

namespace Reowolf

open Reowolf.Parser (SymbolTable)

variable {S : Type}

-- The batch without its operations on the ports.
structure NativeBatch.Pruned (ports : List PortId) (batch batch' : NativeBatch) : Prop where
  to_put : ∀ p, batch'.to_put.get? p = if p ∈ ports then none else batch.to_put.get? p
  to_get : ∀ p, p ∈ batch'.to_get ↔ p ∈ batch.to_get ∧ p ∉ ports

inductive ConnectorPhased.Pruned (ports : List PortId) : ConnectorPhased → ConnectorPhased → Prop
  | setup (s : ConnectorSetup) : Pruned ports (.setup s) (.setup s)
  | communication {comm : ConnectorCommunication} {native_batches : List NativeBatch} :
    List.Forall₂ (NativeBatch.Pruned ports) comm.native_batches native_batches →
    Pruned ports (.communication comm) (.communication { comm with native_batches })

-- The connector has a new component with the state, which has been given the ports of the native
-- component. Nothing else is different.
structure Connector.Adds (c c' : Connector S) (ports : List PortId) (new_cid : ComponentId) (state : S) :
    Prop where
  cid        : c.unphased.ips.id_manager.new_component_id = some (new_cid, c'.unphased.ips.id_manager)
  native     : c'.unphased.native_component_id = c.unphased.native_component_id
  components : ∀ cid, c'.unphased.proto_components.get? cid =
    if cid = new_cid then some state else c.unphased.proto_components.get? cid
  given      : ∀ p ∈ ports, c.unphased.ips.port_info.owner p = some c.unphased.native_component_id
  infos      : ∀ p, c'.unphased.ips.port_info.map.get? p =
    (c.unphased.ips.port_info.map.get? p).map fun info =>
      if p ∈ ports then { info with owner := new_cid } else info
  owned      : ∀ cid, c'.unphased.ips.port_info.owned.get? cid =
    if cid = new_cid then some ports.toFinset
    else if cid = c.unphased.native_component_id then
      (c.unphased.ips.port_info.owned.get? cid).map (·.filter (· ∉ ports))
    else c.unphased.ips.port_info.owned.get? cid
  batches    : c.phased.Pruned ports c'.phased

-- Each frame of the state is that of a procedure with the monomorph that the frame speaks of.
structure Prompt.Typed (types : Types.TypeTable) (state : Prompt) : Prop where
  running : state.frames ≠ []
  frames  : ∀ frame ∈ state.frames, ∃ monomorph,
    types.get_procedure_expression_data frame.definition.this frame.monomorph_idx = some monomorph

-- The call adds a component that can run, or it leaves the connector as it is and says why. It only
-- panics if there is no id left.
structure ParsedProtocol.AddsOrKeeps (pd : ParsedProtocol) (debug_assertions : Bool)
    (c : Connector Prompt) (module_name identifier : List UInt8) (ports : List PortId) : Prop where
  adds   : (pd.add_component debug_assertions c module_name identifier ports).1 = .ok () →
    ∃ new_cid state, state.Typed pd.types ∧
      c.Adds (pd.add_component debug_assertions c module_name identifier ports).2 ports new_cid state
  keeps  : ∀ err, (pd.add_component debug_assertions c module_name identifier ports).1 =
    .error (.err err) → (pd.add_component debug_assertions c module_name identifier ports).2 = c
  panics : (pd.add_component debug_assertions c module_name identifier ports).1 = .error .panic →
    c.unphased.ips.id_manager.new_component_id = none

theorem Connector.drop_moved_ports_pruned {ports : List PortId} (phased : ConnectorPhased) :
    phased.Pruned ports (Connector.drop_moved_ports ports phased) := by
  cases phased with
  | setup s => exact .setup s
  | communication comm =>
    refine .communication (List.forall₂_map_right_iff.mpr (List.forall₂_same.mpr fun batch _ => ?_))
    exact ⟨fun p => HashMap.get?_foldl_erase, fun p => Finset.mem_filter⟩

-- The connector that `Connector::add_component` leaves behind when it works.
def Connector.added (c : Connector S) (ports : List PortId) (new_cid : ComponentId) (ids : IdManager)
    (state : S) : Connector S where
  unphased := { c.unphased with
    proto_components := c.unphased.proto_components.insert new_cid state
    ips := ⟨c.unphased.ips.port_info.move_ports ports c.unphased.native_component_id new_cid, ids⟩ }
  phased   := Connector.drop_moved_ports ports c.phased

theorem ConnectorUnphased.Suits.owner {cu : ConnectorUnphased S} {params : List Types.Parameter}
    {ports : List PortId} (h : cu.Suits params ports) :
    ∀ p ∈ ports, cu.ips.port_info.owner p = some cu.native_component_id := by
  have hfits := h.fits
  clear h
  intro p hp
  induction hfits with
  | nil => cases hp
  | cons hfit _ ih =>
    cases hp with
    | head =>
      obtain ⟨info, hinfo, ho, _⟩ := hfit
      exact PortInfoMap.owner_eq_some.mpr ⟨info, hinfo, ho⟩
    | tail _ hp => exact ih hp

theorem Connector.added_adds {c : Connector S} {ports : List PortId} {new_cid : ComponentId}
    {ids : IdManager} {state : S} {params : List Types.Parameter} (hs : c.unphased.Suits params ports)
    (hid : c.unphased.ips.id_manager.new_component_id = some (new_cid, ids)) :
    c.Adds (c.added ports new_cid ids state) ports new_cid state where
  cid          := hid
  native       := rfl
  components _ := HashMap.get?_insert
  given        := hs.owner
  infos _      := PortInfoMap.get?_change_owner
  owned cid    := by
    simp only [added, PortInfoMap.move_ports, HashMap.get?_insert, HashMap.get?_modify]
    by_cases hcid : cid = c.unphased.native_component_id
    case pos => simp [hcid]
    case neg => simp [hcid]
  batches      := drop_moved_ports_pruned c.phased

namespace ParsedProtocol

variable {pd : ParsedProtocol} {debug_assertions : Bool} {c : Connector Prompt} {ids : IdManager}
  {module_name identifier : List UInt8} {ports : List PortId} {new_cid : ComponentId} {state : Prompt}
  {params : List Types.Parameter}

theorem add_component_of_error {e : Failure AddComponentError}
    (h : pd.check_component c.unphased module_name identifier ports = .error e) :
    pd.add_component debug_assertions c module_name identifier ports = (.error e, c) := by
  simp only [add_component, h]

theorem add_component_exhausted
    (h : pd.check_component c.unphased module_name identifier ports = .ok ())
    (hid : c.unphased.ips.id_manager.new_component_id = none) :
    pd.add_component debug_assertions c module_name identifier ports = (.error .panic, c) := by
  simp only [add_component, h, hid]

theorem add_component_unfit {e : Failure AddComponentError}
    (h : pd.check_component c.unphased module_name identifier ports = .ok ())
    (hid : c.unphased.ips.id_manager.new_component_id = some (new_cid, ids))
    (hnew : pd.new_component debug_assertions module_name identifier ports = .error e) :
    (pd.add_component debug_assertions c module_name identifier ports).1 = .error e := by
  simp only [add_component, h, hid, hnew]

-- The calls that work are those of the model that leaves the evaluator open.
theorem add_component_eq_added (hs : c.unphased.Suits params ports)
    (h : pd.check_component c.unphased module_name identifier ports = .ok ())
    (hid : c.unphased.ips.id_manager.new_component_id = some (new_cid, ids))
    (hnew : pd.new_component debug_assertions module_name identifier ports = .ok state) :
    pd.add_component debug_assertions c module_name identifier ports =
      (.ok (), c.added ports new_cid ids state) := by
  have hinfos : ∀ p ∈ ports, ∃ info, c.unphased.ips.port_info.map.get? p = some info := by
    intro p hp
    obtain ⟨info, hinfo, _⟩ := PortInfoMap.owner_eq_some.mp (hs.owner p hp)
    exact ⟨info, hinfo⟩
  have hgive := @give_ports_eq _ _ new_cid hinfos
  simp only [add_component, h, hid, hnew, hgive]
  rfl

end ParsedProtocol

namespace AcceptedProtocol

variable {pd : AcceptedProtocol} {debug_assertions : Bool} {c : Connector Prompt} {id : DefinitionId}
  {module_name identifier : List UInt8} {ports : List PortId} {definition : Types.Definition}
  {params : List Types.Parameter} {param : Types.Parameter}

theorem check_parameter_ne_panic (hp : param.parser_type ≠ []) :
    ParsedProtocol.check_parameter param ≠ .error .panic := by
  unfold ParsedProtocol.check_parameter
  cases he : param.parser_type with
  | nil             => exact absurd he hp
  | cons part parts => cases part <;> simp

theorem component_polarities_ne_panic :
    pd.component_polarities module_name identifier ≠ .error .panic := by
  intro h
  unfold ParsedProtocol.component_polarities at h
  split at h
  case h_1 => cases h
  case h_2 root_id hroot_id =>
    obtain ⟨module, hfind, he⟩ := Option.map_eq_some_iff.mp hroot_id
    have hlt := pd.roots module (List.mem_of_find?_eq_some hfind)
    rw [he] at hlt
    rw [List.getElem?_eq_getElem hlt, unwrap, Except.ok_bind] at h
    split at h
    case h_1 => cases h
    case h_2 id hid =>
      have hlt' := pd.defined _ (List.getElem_mem hlt) id (List.mem_of_find?_eq_some hid)
      rw [List.getElem?_eq_getElem hlt', unwrap, Except.ok_bind] at h
      split at h
      case h_1 parameters hparams =>
        cases hc : parameters.forM ParsedProtocol.check_parameter with
        | error e =>
          rw [hc] at h
          cases h
          obtain ⟨param, hmem, hp⟩ := Result.forM_panic hc
          exact check_parameter_ne_panic
            (pd.parameters id _ _ (List.getElem?_eq_getElem hlt') hparams param hmem) hp
        | ok =>
          obtain ⟨polarities, hpols⟩ := ParsedProtocol.exists_polarities hc
          rw [hc, Except.ok_bind, hpols] at h
          cases h
      case h_2 => cases h

theorem check_component_ne_panic {cu : ConnectorUnphased Prompt} :
    pd.check_component cu module_name identifier ports ≠ .error .panic := by
  intro h
  unfold ParsedProtocol.check_component at h
  split at h
  case h_1 => cases h
  case h_2 =>
    cases hpols : pd.component_polarities module_name identifier with
    | error e =>
      rw [hpols] at h
      cases h
      exact component_polarities_ne_panic hpols
    | ok polarities =>
      rw [hpols, Except.ok_bind] at h
      split at h
      case isTrue => cases h
      case isFalse =>
        obtain ⟨⟨polarity, port⟩, _, hp⟩ := Result.forM_panic h
        simp only [Connector.check_moved_port] at hp
        split at hp
        case h_1 => cases hp
        case h_2 =>
          split at hp
          case isTrue => cases hp
          case isFalse => split at hp <;> cases hp

-- A component without polymorphic variables has the monomorph that it was queued with.
theorem instantiated_of_nonpolymorphic
    (hn : pd.Names module_name identifier id definition params) (hp : definition.poly_vars = []) :
    pd.types.Instantiated id := by
  obtain ⟨_, root, _, hroot, hid⟩ := hn.root
  have hpart : definition.first_concrete_part id = some (.component id 0) := by
    rw [Types.Definition.first_concrete_part, hn.component]
    exact if_pos hp
  exact pd.typechecked.instantiated (List.mem_of_getElem? hroot) (List.mem_of_find?_eq_some hid)
    hn.defined hpart

-- A call that goes through the checks, with an id left: it is as it should be exactly for a component
-- that the evaluator has the types of.
theorem adds_or_keeps_of_checked {new_cid : ComponentId} {ids : IdManager}
    (hn : pd.Names module_name identifier id definition params) (hs : c.unphased.Suits params ports)
    (hid : c.unphased.ips.id_manager.new_component_id = some (new_cid, ids)) :
    pd.AddsOrKeeps debug_assertions c module_name identifier ports ↔ pd.types.Instantiated id := by
  have hcheck := ParsedProtocol.check_component_eq_ok.mpr ⟨_, _, _, hn, hs⟩
  obtain ⟨procedure, hprocedure, hthis⟩ := pd.bodies id _ _ hn.defined hn.component
  obtain ⟨args, hargs, hnew⟩ := ParsedProtocol.new_component_eq debug_assertions hn hs
  constructor
  case mp =>
    intro h
    by_contra hi
    cases debug_assertions with
    | true =>
      have hpanic := ParsedProtocol.add_component_unfit hcheck hid
        (hnew.trans (ParsedProtocol.new_prompt_panic hi))
      rw [h.panics hpanic] at hid
      cases hid
    | false =>
      obtain ⟨store, hprompt⟩ :=
        @ParsedProtocol.new_prompt_eq_ok _ false _ _ _ hargs hprocedure (by simp)
      have hadded := ParsedProtocol.add_component_eq_added hs hcheck hid (hnew.trans hprompt)
      obtain ⟨new_cid', state, ⟨_, hframes⟩, hadds⟩ := h.adds (by rw [hadded])
      have hcid := hadds.cid.symm.trans hid
      have hstate := hadds.components new_cid
      rw [hadded, Connector.added] at hstate
      cases congrArg Prod.fst (Option.some.inj hcid)
      simp only [HashMap.get?_insert_self, if_true, Option.some.injEq] at hstate
      subst hstate
      obtain ⟨monomorph, hm⟩ := hframes _ (.head _)
      rw [show (Frame.new pd.heap procedure 0).definition.this = id from hthis] at hm
      exact hi ⟨monomorph, hm⟩
  case mpr =>
    intro hi
    obtain ⟨store, hprompt⟩ := ParsedProtocol.new_prompt_eq_ok hargs hprocedure fun _ => hi
    have hadded := ParsedProtocol.add_component_eq_added hs hcheck hid (hnew.trans hprompt)
    have htyped : Prompt.Typed pd.types ⟨[Frame.new pd.heap procedure 0], store⟩ := by
      refine ⟨List.cons_ne_nil _ _, fun frame hframe => ?_⟩
      obtain ⟨monomorph, hm⟩ := hi
      cases List.mem_singleton.mp hframe
      exact ⟨monomorph, hthis.symm ▸ hm⟩
    refine ⟨fun _ => ⟨new_cid, _, htyped, ?_⟩, fun err he => ?_, fun hp => ?_⟩
    · rw [hadded]
      exact Connector.added_adds hs hid
    · rw [hadded] at he
      cases he
    · rw [hadded] at hp
      cases hp

-- A call does what it is documented to do unless it goes through all checks for a polymorphic component
-- that no other procedure makes use of. There the build with debug assertions panics, and the other one
-- adds a component whose types cannot be looked up.
theorem adds_or_keeps_iff (pd : AcceptedProtocol) (debug_assertions : Bool) (c : Connector Prompt)
    (module_name identifier : List UInt8) (ports : List PortId) :
    pd.AddsOrKeeps debug_assertions c module_name identifier ports ↔
      ∀ id definition parameters, pd.Names module_name identifier id definition parameters →
        c.unphased.Suits parameters ports → c.unphased.ips.id_manager.new_component_id ≠ none →
        definition.poly_vars = [] ∨ pd.types.Instantiated id := by
  cases hcheck : pd.check_component c.unphased module_name identifier ports with
  | error e =>
    have herror := @ParsedProtocol.add_component_of_error _ debug_assertions _ _ _ _ _ hcheck
    refine iff_of_true ⟨fun h => ?_, fun err _ => ?_, fun hp => ?_⟩
      fun id definition parameters hn hs _ => ?_
    · rw [herror] at h
      cases h
    · rw [herror]
    · rw [herror] at hp
      cases hp
      exact absurd hcheck check_component_ne_panic
    · rw [ParsedProtocol.check_component_eq_ok.mpr ⟨_, _, _, hn, hs⟩] at hcheck
      cases hcheck
  | ok =>
    obtain ⟨id, definition, parameters, hn, hs⟩ := ParsedProtocol.check_component_eq_ok.mp hcheck
    cases hid : c.unphased.ips.id_manager.new_component_id with
    | none =>
      have hnone := @ParsedProtocol.add_component_exhausted _ debug_assertions _ _ _ _ hcheck hid
      refine iff_of_true ⟨fun h => ?_, fun err he => ?_, fun _ => hid⟩ fun _ _ _ _ _ h => absurd rfl h
      · rw [hnone] at h
        cases h
      · rw [hnone] at he
        cases he
    | some drawn =>
      obtain ⟨new_cid, ids⟩ := drawn
      rw [adds_or_keeps_of_checked hn hs hid]
      constructor
      case mp =>
        intro hi id' definition' parameters' hn' _ _
        obtain ⟨rfl, _⟩ := hn.definition_id_eq hn'
        exact .inr hi
      case mpr =>
        intro h
        cases h id definition parameters hn hs (by simp) with
        | inl hp => exact instantiated_of_nonpolymorphic hn hp
        | inr hi => exact hi

-- The protocol as the model of the runtime has it, in which no call panics.
def runtime (pd : AcceptedProtocol) (debug_assertions : Bool) (sync : Prompt → SyncAction Prompt)
    (nonsync : Prompt → NonsyncAction Prompt) : ProtocolDescription Prompt where
  sync    := sync
  nonsync := nonsync
  component_polarities module_name identifier :=
    match pd.component_polarities module_name identifier with
    | .ok polarities      => .ok polarities
    | .error (.err err)   => .error err
    | .error .panic       => .ok []
  new_component module_name identifier ports :=
    (pd.new_component debug_assertions module_name identifier ports).toOption.getD ⟨[], .new⟩

variable {sync : Prompt → SyncAction Prompt} {nonsync : Prompt → NonsyncAction Prompt}

theorem runtime_polarities : pd.component_polarities module_name identifier =
    ((pd.runtime debug_assertions sync nonsync).component_polarities module_name identifier).mapError
      .err := by
  unfold runtime
  cases h : pd.component_polarities module_name identifier with
  | ok => simp only [h]; rfl
  | error e =>
    cases e with
    | err   => simp only [h]; rfl
    | panic => exact absurd h component_polarities_ne_panic

theorem runtime_check_component :
    Connector.check_component (pd.runtime debug_assertions sync nonsync) c.unphased module_name identifier
      ports = pd.check_component c.unphased module_name identifier ports := by
  unfold Connector.check_component ParsedProtocol.check_component
  rw [@runtime_polarities pd debug_assertions _ _ sync nonsync]
  cases duplicate_port ports with
  | some => rfl
  | none =>
    cases (pd.runtime debug_assertions sync nonsync).component_polarities module_name identifier <;> rfl

-- The calls that return do so in the runtime's model as well, with the same connector or the same error.
theorem runtime_simulates {outcome : Except AddComponentError Unit} {c' : Connector Prompt}
    (hrun : pd.add_component debug_assertions c module_name identifier ports =
      (outcome.mapError .err, c')) :
    c.add_component (pd.runtime debug_assertions sync nonsync) module_name identifier ports =
      (outcome.map fun _ => c').mapError .err := by
  rw [Connector.add_component, runtime_check_component]
  cases hcheck : pd.check_component c.unphased module_name identifier ports with
  | error e =>
    rw [ParsedProtocol.add_component_of_error hcheck] at hrun
    cases outcome with
    | error => cases hrun; rfl
    | ok    => cases hrun
  | ok =>
    obtain ⟨id, definition, parameters, hn, hs⟩ := ParsedProtocol.check_component_eq_ok.mp hcheck
    obtain ⟨procedure, hprocedure, _⟩ := pd.bodies id _ _ hn.defined hn.component
    obtain ⟨args, hargs, hnew⟩ := ParsedProtocol.new_component_eq debug_assertions hn hs
    cases hid : c.unphased.ips.id_manager.new_component_id with
    | none =>
      rw [ParsedProtocol.add_component_exhausted hcheck hid] at hrun
      cases outcome <;> cases hrun
    | some drawn =>
      obtain ⟨new_cid, ids⟩ := drawn
      by_cases hd : debug_assertions = true → pd.types.Instantiated id
      case pos =>
        obtain ⟨store, hprompt⟩ := ParsedProtocol.new_prompt_eq_ok hargs hprocedure hd
        have hstate := hnew.trans hprompt
        rw [ParsedProtocol.add_component_eq_added hs hcheck hid hstate] at hrun
        cases outcome with
        | error => cases hrun
        | ok =>
          cases hrun
          simp only [Except.ok_bind, unwrap, runtime, hstate]
          rfl
      case neg =>
        obtain ⟨hdebug, hi⟩ := Classical.not_imp.mp hd
        subst hdebug
        have hpanic := ParsedProtocol.add_component_unfit hcheck hid
          (hnew.trans (ParsedProtocol.new_prompt_panic hi))
        rw [hrun] at hpanic
        cases outcome <;> cases hpanic

-- `primitive forward<T>(in<T> a, out<T> b) {}`.
def forward : Types.Definition :=
  ⟨some 0, "forward", ["T"],
    .component [⟨"a", [.input, .polymorphicArgument 0 0]⟩, ⟨"b", [.output, .polymorphicArgument 0 0]⟩]⟩

def forwardTypes : Types.TypeTable :=
  (Types.TypeTable.build_base_types .new ⟨[forward]⟩ SymbolTable.new 10).toOption.getD .new

-- A module without a name, in which no component is made from `forward`.
def forwardProtocol : AcceptedProtocol where
  modules               := [⟨none, 0⟩]
  protocol_descriptions := [⟨[], [], [0]⟩]
  definitions           := ⟨[forward]⟩
  types                 := forwardTypes
  procedures            := fun _ => some ⟨0, .primitive, [0, 1], ⟨0, [], 1⟩⟩
  heap                  := .parsed (.parsed [⟨"a", 0, 0⟩, ⟨"b", 0, 1⟩])
  arch                  := .new
  symbols               := SymbolTable.new
  typechecked           := @Types.Typechecked.mk _ _ _ _ forwardTypes _ 10 _ rfl rfl .refl
  roots                 := by simp
  defined               := by simp
  bodies id definition _ hdef _ := by
    obtain ⟨hlt, _⟩ := List.getElem?_eq_some_iff.mp hdef
    exact ⟨_, rfl, (Nat.lt_one_iff.mp hlt).symm⟩
  parameters id definition parameters hdef hparams := by
    obtain ⟨hlt, he⟩ := List.getElem?_eq_some_iff.mp hdef
    cases Nat.lt_one_iff.mp hlt
    cases he
    cases hparams
    simp

-- The native component has a pair of ports and gives both to the component: the input comes first.
theorem forward_unfit : ∃ c c' : Connector Prompt, ∃ o i : PortId,
    Connector.new 0 = some c ∧ c.new_port_pair = some (c', o, i) ∧
    ∀ debug_assertions, ¬forwardProtocol.AddsOrKeeps debug_assertions c' [] (as_bytes "forward") [i, o] := by
  refine ⟨_, _, ⟨0, 0⟩, ⟨0, 1⟩, rfl, rfl, fun debug_assertions h => ?_⟩
  have hn : forwardProtocol.Names [] (as_bytes "forward") 0 forward
      [⟨"a", [.input, .polymorphicArgument 0 0]⟩, ⟨"b", [.output, .polymorphicArgument 0 0]⟩] :=
    ⟨⟨0, ⟨[], [], [0]⟩, rfl, rfl, by decide⟩, rfl, rfl⟩
  obtain ⟨monomorph, hm⟩ := (adds_or_keeps_of_checked hn
    ⟨by decide, .cons ⟨_, rfl, rfl, rfl⟩ (.cons ⟨_, rfl, rfl, rfl⟩ .nil)⟩ rfl).mp h
  cases hm

end AcceptedProtocol
end Reowolf
