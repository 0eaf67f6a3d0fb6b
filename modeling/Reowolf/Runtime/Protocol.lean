import Reowolf.Runtime.PortInfo

namespace Reowolf

inductive AddComponentError
  | duplicatePort (port : PortId)
  | noSuchModule
  | noSuchComponent
  | nonPortTypeParameters
  | wrongNumberOfParamaters (expected : Nat)
  | unknownPort (port : PortId)
  | wrongPortPolarity (port : PortId) (expected_polarity : Polarity)
deriving DecidableEq

-- What a component does next while it is in a synchronous block.
inductive SyncAction (S : Type)
  | step  (next : S)
  | fires (port : PortId) (next : Bool → S)
  | get   (port : PortId) (next : Payload → S)
  | put   (port : PortId) (payload : Payload) (next : S)
  | inconsistent
  | syncBlockEnd (next : S)

-- What a component does next while it is outside of a synchronous block.
inductive NonsyncAction (S : Type)
  | step         (next : S)
  | newChannel   (next : PortId → PortId → S)
  | newComponent (moved_ports : Finset PortId) (init : S) (next : S)
  | inconsistent
  | exit
  | syncBlockStart (next : S)

-- A deterministic protocol: the states of its components, and what each of them does next.
structure ProtocolDescription (S : Type) where
  sync                 : S → SyncAction S
  nonsync              : S → NonsyncAction S
  component_polarities : (module_name identifier : List UInt8) →
                         Except AddComponentError (List Polarity)
  new_component        : (module_name identifier : List UInt8) → List PortId → S

end Reowolf
