import Reowolf.Protocol.CallFrames
import Reowolf.Runtime.Batches
import Reowolf.Types.ProcedureMonomorphs

namespace Reowolf

open Reowolf.Parser (ParserTypeVariant RootId SymbolTable)

-- The bytes that an identifier is compared by.
def as_bytes (s : String) : List UInt8 :=
  s.toList.flatMap String.utf8EncodeChar

structure ProtocolModule where
  name    : Option (List UInt8)
  root_id : RootId

-- What the parser hands over: the modules with their roots, the definitions, the procedures among them
-- with their bodies, and the table of types.
structure ParsedProtocol where
  modules               : List ProtocolModule
  protocol_descriptions : List Parser.Root
  definitions           : Types.Heap
  types                 : Types.TypeTable
  procedures            : DefinitionId → Option Definition
  heap                  : Heap

namespace ParsedProtocol

variable (pd : ParsedProtocol)

-- A module without a name is found under the empty one.
def lookup_module_root (module_name : List UInt8) : Option RootId :=
  (pd.modules.find? fun module => module.name.getD [] = module_name).map ProtocolModule.root_id

def get_definition_ident (root : Parser.Root) (id : List UInt8) : Option DefinitionId :=
  root.definitions.find? fun definition => as_bytes (pd.definitions.identifier definition) = id

-- The loop that refuses parameters other than ports.
def check_parameter (param : Types.Parameter) : Result AddComponentError Unit :=
  match param.parser_type.head? with
  | none => .error .panic
  | some .input | some .output => .ok ()
  | some _ => .error (.err .nonPortTypeParameters)

def parameter_polarity (param : Types.Parameter) : Result AddComponentError Polarity :=
  match param.parser_type.head? with
  | some .input  => .ok .getter
  | some .output => .ok .putter
  | _            => .error .panic

def component_polarities (module_name identifier : List UInt8) :
    Result AddComponentError (List Polarity) :=
  match pd.lookup_module_root module_name with
  | none => .error (.err .noSuchModule)
  | some module_root => do
    let root ← unwrap pd.protocol_descriptions[module_root]?
    match pd.get_definition_ident root identifier with
    | none => .error (.err .noSuchComponent)
    | some definition_id => do
      let definition ← unwrap pd.definitions.definitions[definition_id]?
      match definition.variant with
      | .component parameters => do
        parameters.forM check_parameter
        parameters.mapM parameter_polarity
      | _ => .error (.err .noSuchComponent)

-- With the debug assertions in the build, a component has to have the monomorph.
def new_prompt (debug_assertions : Bool) (definition_id : DefinitionId) (monomorph_idx : Nat)
    (args : ValueGroup) : Result AddComponentError Prompt := do
  if debug_assertions then
    let monomorphs ← unwrap (pd.types.procedure_monomorphs definition_id)
    ensure (monomorph_idx < monomorphs.length)
  let definition ← unwrap (pd.procedures definition_id)
  unwrap (Prompt.new pd.heap definition monomorph_idx args).toOption

def port_value : PortId × Polarity → Value
  | (port, .getter) => .input port
  | (port, .putter) => .output port

-- A polymorphic component is given the monomorph that was reserved first, as is any other.
def new_component (debug_assertions : Bool) (module_name identifier : List UInt8)
    (ports : List PortId) : Result AddComponentError Prompt := do
  let polarities ← unwrap (pd.component_polarities module_name identifier).toOption
  let args := (ports.zip polarities).map port_value
  let module_root ← unwrap (pd.lookup_module_root module_name)
  let root ← unwrap pd.protocol_descriptions[module_root]?
  let definition_id ← unwrap (pd.get_definition_ident root identifier)
  pd.new_prompt debug_assertions definition_id 0 (.new_stack args)

end ParsedProtocol

-- The loop that updates the owners of the moved ports.
def give_ports (new_cid : ComponentId) :
    List PortId → HashMap PortId PortInfo → Option (HashMap PortId PortInfo)
  | [], map => some map
  | port :: ports, map => do
    let info ← map.get? port
    give_ports new_cid ports (map.insert port { info with owner := new_cid })

namespace ParsedProtocol

variable (pd : ParsedProtocol)

def check_component (cu : ConnectorUnphased Prompt) (module_name identifier : List UInt8)
    (ports : List PortId) : Result AddComponentError Unit :=
  match duplicate_port ports with
  | some port => .error (.err (.duplicatePort port))
  | none => do
    let expected_polarities ← pd.component_polarities module_name identifier
    if expected_polarities.length ≠ ports.length then
      .error (.err (.wrongNumberOfParamaters expected_polarities.length))
    else
      (expected_polarities.zip ports).forM (Connector.check_moved_port cu)

-- `Connector::add_component` with the connector as it leaves it, also where it fails.
def add_component (debug_assertions : Bool) (c : Connector Prompt)
    (module_name identifier : List UInt8) (ports : List PortId) :
    Result AddComponentError Unit × Connector Prompt :=
  let cu := c.unphased
  match pd.check_component cu module_name identifier ports with
  | .error e => (.error e, c)
  | .ok () =>
    -- No errors! Time to modify `cu`
    match cu.ips.id_manager.new_component_id with
    | none => (.error .panic, c)
    | some (new_cid, ids) =>
      let cu := { cu with ips := { cu.ips with id_manager := ids } }
      match pd.new_component debug_assertions module_name identifier ports with
      | .error e => (.error e, { c with unphased := cu })
      | .ok state =>
        let cu := { cu with proto_components := cu.proto_components.insert new_cid state }
        match give_ports new_cid ports cu.ips.port_info.map with
        | none => (.error .panic, { c with unphased := cu })
        | some map =>
          let owned := cu.ips.port_info.owned.modify cu.native_component_id (·.filter (· ∉ ports))
          let phased := Connector.drop_moved_ports ports c.phased
          let owned := owned.insert new_cid ports.toFinset
          (.ok (), ⟨{ cu with ips := { cu.ips with port_info := ⟨map, owned⟩ } }, phased⟩)

end ParsedProtocol

-- A protocol that the parser accepts.
structure AcceptedProtocol extends ParsedProtocol where
  arch        : Types.TargetArch
  symbols     : SymbolTable
  typechecked : Types.Typechecked definitions arch symbols protocol_descriptions types
  roots       : ∀ module ∈ modules, module.root_id < protocol_descriptions.length
  defined     : ∀ root ∈ protocol_descriptions, ∀ id ∈ root.definitions,
    id < definitions.definitions.length
  bodies      : ∀ (id : DefinitionId) definition parameters,
    definitions.definitions[id]? = some definition → definition.variant = .component parameters →
    ∃ procedure, procedures id = some procedure ∧ procedure.this = id
  parameters  : ∀ (id : DefinitionId) definition parameters,
    definitions.definitions[id]? = some definition → definition.variant = .component parameters →
    ∀ param ∈ parameters, param.parser_type ≠ []

namespace ParsedProtocol

-- The definition that the name of a module and an identifier stand for is a component.
structure Names (pd : ParsedProtocol) (module_name identifier : List UInt8) (id : DefinitionId)
    (definition : Types.Definition) (parameters : List Types.Parameter) : Prop where
  root       : ∃ root_id root, pd.lookup_module_root module_name = some root_id ∧
    pd.protocol_descriptions[root_id]? = some root ∧ pd.get_definition_ident root identifier = some id
  defined    : pd.definitions.definitions[id]? = some definition
  component  : definition.variant = .component parameters

end ParsedProtocol

def Polarity.port_type : Polarity → ParserTypeVariant
  | .getter => .input
  | .putter => .output

namespace ConnectorUnphased

variable {S : Type}

-- The port is one of the native component, and the parameter is a port of the same direction.
def Fits (cu : ConnectorUnphased S) (parameter : Types.Parameter) (port : PortId) : Prop :=
  ∃ info, cu.ips.port_info.map.get? port = some info ∧ info.owner = cu.native_component_id ∧
    parameter.parser_type.head? = some info.polarity.port_type

structure Suits (cu : ConnectorUnphased S) (parameters : List Types.Parameter) (ports : List PortId) :
    Prop where
  nodup : ports.Nodup
  fits  : List.Forall₂ cu.Fits parameters ports

end ConnectorUnphased

section

variable {ports : List PortId} {map : HashMap PortId PortInfo} {new_cid : ComponentId} {p : PortId}

theorem duplicate_port_go_eq_none {seen : List PortId} :
    duplicate_port.go seen ports = none ↔ ports.Nodup ∧ ∀ p ∈ ports, p ∉ seen := by
  induction ports generalizing seen with
  | nil => simp [duplicate_port.go]
  | cons port ports ih =>
    rw [duplicate_port.go]
    by_cases hseen : port ∈ seen
    case pos => simp [hseen]
    case neg =>
      rw [if_neg hseen, ih, List.nodup_cons, List.forall_mem_cons]
      simp only [List.mem_cons, not_or]
      constructor
      case mp =>
        rintro ⟨hn, hall⟩
        exact ⟨⟨fun hmem => (hall port hmem).left rfl, hn⟩, hseen, fun p hp => (hall p hp).right⟩
      case mpr =>
        rintro ⟨⟨hport, hn⟩, _, hall⟩
        exact ⟨hn, fun p hp => ⟨fun he => hport (he ▸ hp), hall p hp⟩⟩

theorem duplicate_port_eq_none : duplicate_port ports = none ↔ ports.Nodup := by
  simp [duplicate_port, duplicate_port_go_eq_none]

theorem give_ports_eq (h : ∀ p ∈ ports, ∃ info, map.get? p = some info) :
    give_ports new_cid ports map =
      some (ports.foldl (fun map port => map.modify port ({ · with owner := new_cid })) map) := by
  induction ports generalizing map with
  | nil => rfl
  | cons port ports ih =>
    obtain ⟨info, hinfo⟩ := h port (.head _)
    have hmodify : map.insert port { info with owner := new_cid } =
        map.modify port ({ · with owner := new_cid }) := by
      rw [HashMap.modify, hinfo]
    rw [give_ports, hinfo, Option.bind_eq_bind, Option.bind_some, hmodify, List.foldl_cons]
    refine ih fun p hp => ?_
    rw [HashMap.get?_modify]
    split
    case isTrue  => exact ⟨_, congrArg _ hinfo⟩
    case isFalse => exact h p (.tail _ hp)

theorem HashMap.get?_foldl_erase {ν : Type} {m : HashMap PortId ν} :
    (ports.foldl HashMap.erase m).get? p = if p ∈ ports then none else m.get? p := by
  induction ports generalizing m with
  | nil => rfl
  | cons port ports ih =>
    rw [List.foldl_cons, ih, HashMap.get?_erase]
    by_cases hp : p = port
    case pos => simp [hp]
    case neg => simp [hp]

end

namespace Result

variable {ε α β : Type} {f : α → Result ε Unit} {g : α → Result ε β} {as : List α} {bs : List β}

theorem forM_eq_ok : as.forM f = .ok () ↔ ∀ a ∈ as, f a = .ok () := by
  induction as with
  | nil => exact iff_of_true rfl fun _ h => by cases h
  | cons a as ih =>
    rw [List.forall_mem_cons, ← ih]
    constructor
    case mp =>
      intro h
      obtain ⟨_, ha, has⟩ := Result.bind_eq_ok.mp h
      exact ⟨ha, has⟩
    case mpr => exact fun h => Result.bind_eq_ok.mpr ⟨(), h.left, h.right⟩

theorem forM_panic (h : as.forM f = .error .panic) : ∃ a ∈ as, f a = .error .panic := by
  induction as with
  | nil => cases h
  | cons a as ih =>
    cases ha : f a with
    | error e =>
      have he : (a :: as).forM f = .error e := by
        change (f a >>= fun _ => as.forM f) = _
        rw [ha]
        rfl
      rw [he] at h
      exact ⟨a, .head _, ha.trans h⟩
    | ok =>
      have he : (a :: as).forM f = as.forM f := by
        change (f a >>= fun _ => as.forM f) = _
        rw [ha]
        rfl
      obtain ⟨a', hmem, ha'⟩ := ih (he ▸ h)
      exact ⟨a', .tail _ hmem, ha'⟩

theorem mapM_eq_ok : as.mapM g = .ok bs ↔ List.Forall₂ (fun a b => g a = .ok b) as bs := by
  induction as generalizing bs with
  | nil =>
    rw [List.mapM_nil, Result.pure_eq_ok, List.forall₂_nil_left_iff, eq_comm]
  | cons a as ih =>
    rw [List.mapM_cons]
    constructor
    case mp =>
      intro h
      obtain ⟨b, hb, h⟩ := Result.bind_eq_ok.mp h
      obtain ⟨bs', hbs, h⟩ := Result.bind_eq_ok.mp h
      cases h
      exact .cons hb (ih.mp hbs)
    case mpr =>
      rintro (_ | ⟨hb, hbs⟩)
      rw [hb, Except.ok_bind, ih.mpr hbs]
      rfl

end Result

-- The parameter is a port with the polarity.
def HasPolarity (param : Types.Parameter) (polarity : Polarity) : Prop :=
  param.parser_type.head? = some polarity.port_type

namespace ParsedProtocol

variable {param : Types.Parameter} {params : List Types.Parameter} {polarity : Polarity}
  {polarities : List Polarity}

theorem check_parameter_eq_ok : check_parameter param = .ok () ↔ ∃ polarity, HasPolarity param polarity := by
  unfold check_parameter HasPolarity
  constructor
  case mp =>
    intro h
    split at h
    case h_1    => cases h
    case h_2 he => exact ⟨.getter, he⟩
    case h_3 he => exact ⟨.putter, he⟩
    case h_4    => cases h
  case mpr =>
    rintro ⟨polarity, he⟩
    cases polarity <;> rw [he] <;> rfl

theorem parameter_polarity_eq_ok :
    parameter_polarity param = .ok polarity ↔ HasPolarity param polarity := by
  unfold parameter_polarity HasPolarity
  constructor
  case mp =>
    intro h
    split at h
    case h_1 he => cases h; exact he
    case h_2 he => cases h; exact he
    case h_3    => cases h
  case mpr =>
    intro he
    cases polarity <;> rw [he] <;> rfl

-- The second loop finds the polarities of the parameters that the first one lets through.
theorem exists_polarities (h : params.forM check_parameter = .ok ()) :
    ∃ polarities, params.mapM parameter_polarity = .ok polarities := by
  replace h := Result.forM_eq_ok.mp h
  induction params with
  | nil => exact ⟨[], rfl⟩
  | cons param params ih =>
    obtain ⟨hparam, h⟩ := List.forall_mem_cons.mp h
    obtain ⟨polarity, hp⟩ := check_parameter_eq_ok.mp hparam
    obtain ⟨polarities, hps⟩ := ih h
    exact ⟨polarity :: polarities, Result.mapM_eq_ok.mpr
      (.cons (parameter_polarity_eq_ok.mpr hp) (Result.mapM_eq_ok.mp hps))⟩

theorem mapM_parameter_polarity :
    params.mapM parameter_polarity = .ok polarities ↔ List.Forall₂ HasPolarity params polarities := by
  simp only [Result.mapM_eq_ok, parameter_polarity_eq_ok]

theorem forM_check_parameter (h : List.Forall₂ HasPolarity params polarities) :
    params.forM check_parameter = .ok () := by
  refine Result.forM_eq_ok.mpr fun param hmem => check_parameter_eq_ok.mpr ?_
  induction h with
  | nil => cases hmem
  | cons hp _ ih =>
    cases hmem with
    | head        => exact ⟨_, hp⟩
    | tail _ hmem => exact ih hmem

variable {pd : ParsedProtocol} {module_name identifier : List UInt8} {ports : List PortId}
  {cu : ConnectorUnphased Prompt}

theorem component_polarities_eq_ok : pd.component_polarities module_name identifier = .ok polarities ↔
    ∃ id definition parameters, pd.Names module_name identifier id definition parameters ∧
      List.Forall₂ HasPolarity parameters polarities := by
  unfold component_polarities
  constructor
  case mp =>
    intro h
    split at h
    case h_1 => cases h
    case h_2 root_id hroot_id =>
      obtain ⟨root, hroot, h⟩ := Result.bind_eq_ok.mp h
      split at h
      case h_1 => cases h
      case h_2 id hid =>
        obtain ⟨definition, hdef, h⟩ := Result.bind_eq_ok.mp h
        split at h
        case h_1 parameters hparams =>
          obtain ⟨_, _, h⟩ := Result.bind_eq_ok.mp h
          exact ⟨id, definition, parameters,
            ⟨⟨root_id, root, hroot_id, Result.unwrap_eq_ok.mp hroot, hid⟩,
              Result.unwrap_eq_ok.mp hdef, hparams⟩, mapM_parameter_polarity.mp h⟩
        case h_2 => cases h
  case mpr =>
    rintro ⟨id, definition, parameters, ⟨⟨root_id, root, hroot_id, hroot, hid⟩, hdef, hparams⟩, h⟩
    simp only [hroot_id, hroot, hid, hdef, hparams, unwrap, Except.ok_bind, forM_check_parameter h]
    exact mapM_parameter_polarity.mpr h

theorem check_moved_port_eq_ok {port : PortId} :
    Connector.check_moved_port cu (polarity, port) = .ok () ↔
      ∃ info, cu.ips.port_info.map.get? port = some info ∧ info.owner = cu.native_component_id ∧
        info.polarity = polarity := by
  unfold Connector.check_moved_port
  cases hinfo : cu.ips.port_info.map.get? port with
  | none => simp [hinfo]
  | some info =>
    by_cases ho : info.owner = cu.native_component_id
    case neg => simp [hinfo, ho]
    case pos =>
      by_cases hp : info.polarity = polarity <;> simp [hinfo, ho, hp]

theorem check_moved_ports_eq_ok (hl : polarities.length = ports.length)
    (h : List.Forall₂ HasPolarity params polarities) :
    (polarities.zip ports).forM (Connector.check_moved_port cu) = .ok () ↔
      List.Forall₂ cu.Fits params ports := by
  rw [Result.forM_eq_ok]
  induction h generalizing ports with
  | nil =>
    cases ports with
    | nil  => simp
    | cons => cases hl
  | @cons param polarity params polarities hp h ih =>
    cases ports with
    | nil => cases hl
    | cons port ports =>
      rw [List.zip_cons_cons, List.forall_mem_cons, List.forall₂_cons, ih (Nat.succ.inj hl),
        check_moved_port_eq_ok]
      refine and_congr_left fun _ => exists_congr fun info => and_congr_right fun _ =>
        and_congr_right fun _ => ?_
      rw [show param.parser_type.head? = _ from hp, Option.some.injEq]
      cases info.polarity <;> cases polarity <;> simp [Polarity.port_type]

theorem exists_polarities_of_fits (h : List.Forall₂ cu.Fits params ports) :
    ∃ polarities, List.Forall₂ HasPolarity params polarities := by
  induction h with
  | nil => exact ⟨[], .nil⟩
  | cons hfit _ ih =>
    obtain ⟨info, _, _, hp⟩ := hfit
    obtain ⟨polarities, h⟩ := ih
    exact ⟨info.polarity :: polarities, .cons hp h⟩

-- The call goes through its checks exactly for a component with as many parameters as there are ports,
-- all of which are ports of the native component with the direction of the parameter.
theorem check_component_eq_ok : pd.check_component cu module_name identifier ports = .ok () ↔
    ∃ id definition parameters, pd.Names module_name identifier id definition parameters ∧
      cu.Suits parameters ports := by
  unfold check_component
  constructor
  case mp =>
    intro h
    split at h
    case h_1 => cases h
    case h_2 hdup =>
      obtain ⟨polarities, hpols, h⟩ := Result.bind_eq_ok.mp h
      obtain ⟨id, definition, parameters, hnames, hpols⟩ := component_polarities_eq_ok.mp hpols
      split at h
      case isTrue => cases h
      case isFalse hl =>
        exact ⟨id, definition, parameters, hnames, duplicate_port_eq_none.mp hdup,
          (check_moved_ports_eq_ok (not_not.mp hl) hpols).mp h⟩
  case mpr =>
    rintro ⟨id, definition, parameters, hnames, hnodup, hfits⟩
    obtain ⟨polarities, hpols⟩ := exists_polarities_of_fits hfits
    have hl : polarities.length = ports.length := hpols.length_eq.symm.trans hfits.length_eq
    rw [duplicate_port_eq_none.mpr hnodup, component_polarities_eq_ok.mpr ⟨_, _, _, hnames, hpols⟩,
      Except.ok_bind, if_neg (not_not.mpr hl)]
    exact (check_moved_ports_eq_ok hl hpols).mpr hfits

theorem Names.definition_id_eq {id id' : DefinitionId} {definition definition' : Types.Definition}
    {params' : List Types.Parameter} (h : pd.Names module_name identifier id definition params)
    (h' : pd.Names module_name identifier id' definition' params') :
    id' = id ∧ definition' = definition := by
  obtain ⟨⟨_, _, hroot_id, hroot, hid⟩, hdef, _⟩ := h
  obtain ⟨⟨_, _, hroot_id', hroot', hid'⟩, hdef', _⟩ := h'
  cases hroot_id.symm.trans hroot_id'
  cases hroot.symm.trans hroot'
  cases hid.symm.trans hid'
  exact ⟨rfl, Option.some.inj (hdef'.symm.trans hdef)⟩

theorem push_values_of_ports {group : ValueGroup} {values : List Value} {store : Store}
    (h : ∀ value ∈ values, value.get_heap_pos = none) :
    group.push_values values store = .ok { store with stack := store.stack ++ values } := by
  induction values generalizing store with
  | nil => simp [ValueGroup.push_values]
  | cons value values ih =>
    obtain ⟨hvalue, h⟩ := List.forall_mem_cons.mp h
    have hprovide : group.provide_value (group.regions.length + 1) value store = .ok (value, store) := by
      simp only [ValueGroup.provide_value, hvalue]
    rw [ValueGroup.push_values, hprovide, Except.ok_bind]
    dsimp only
    rw [ih h, List.append_assoc, List.singleton_append]

theorem new_prompt_eq_ok {debug_assertions : Bool} {id : DefinitionId} {procedure : Definition}
    {args : List Value} (hargs : ∀ value ∈ args, value.get_heap_pos = none)
    (hp : pd.procedures id = some procedure) (hd : debug_assertions = true → pd.types.Instantiated id) :
    ∃ store, pd.new_prompt debug_assertions id 0 (.new_stack args) =
      .ok ⟨[Frame.new pd.heap procedure 0], store⟩ := by
  obtain ⟨store, hnew⟩ : ∃ store, Prompt.new pd.heap procedure 0 (.new_stack args) =
      .ok ⟨[Frame.new pd.heap procedure 0], store⟩ := by
    have hpush : (ValueGroup.new_stack args).into_store .new = .ok _ := push_values_of_ports hargs
    exact ⟨_, Except.bind_eq_ok.mpr ⟨_, hpush, rfl⟩⟩
  refine ⟨store, ?_⟩
  unfold new_prompt
  cases debug_assertions with
  | false => simp [hp, hnew, unwrap, Except.ok_bind, Except.toOption]
  | true =>
    obtain ⟨monomorphs, hm, hlen⟩ := Types.TypeTable.instantiated_iff.mp (hd rfl)
    simp [hp, hnew, hm, hlen, unwrap, ensure, Except.ok_bind, Except.toOption]

theorem new_prompt_panic {id : DefinitionId} {args : ValueGroup}
    (h : ¬pd.types.Instantiated id) : pd.new_prompt true id 0 args = .error .panic := by
  rw [Types.TypeTable.instantiated_iff] at h
  unfold new_prompt
  cases hm : pd.types.procedure_monomorphs id with
  | none => rfl
  | some monomorphs =>
    have hlen : ¬0 < monomorphs.length := fun hlen => h ⟨_, hm, hlen⟩
    simp only [if_true, unwrap, Except.ok_bind, ensure, hlen, decide_false]
    rfl

-- A component that passes the checks gets the monomorph with the index 0.
theorem new_component_eq (debug_assertions : Bool) {id : DefinitionId} {definition : Types.Definition}
    (hn : pd.Names module_name identifier id definition params) (hs : cu.Suits params ports) :
    ∃ args : List Value, (∀ value ∈ args, value.get_heap_pos = none) ∧
      pd.new_component debug_assertions module_name identifier ports =
        pd.new_prompt debug_assertions id 0 (.new_stack args) := by
  obtain ⟨polarities, hpols⟩ := exists_polarities_of_fits hs.fits
  obtain ⟨root_id, root, hroot_id, hroot, hid⟩ := hn.root
  refine ⟨(ports.zip polarities).map port_value, ?_, ?_⟩
  · intro value hv
    obtain ⟨⟨port, polarity⟩, _, he⟩ := List.mem_map.mp hv
    subst he
    cases polarity <;> rfl
  · have hok := component_polarities_eq_ok.mpr ⟨_, _, _, hn, hpols⟩
    simp only [new_component, hok, Except.toOption, unwrap, Except.ok_bind, hroot_id, hroot, hid]

end ParsedProtocol

end Reowolf
