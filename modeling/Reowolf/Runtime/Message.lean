import Reowolf.Runtime.PortInfo

namespace Reowolf

inductive Decision
  | failure
  | success (predicate : Predicate)
deriving DecidableEq

structure SendPayloadMsg where
  predicate : Predicate
  payload   : Payload
deriving DecidableEq

inductive CommCtrlMsg
  | suggest  (suggestion : Decision)
  | announce (decision : Decision)
deriving DecidableEq

inductive CommMsgContents
  | sendPayload (msg : SendPayloadMsg)
  | commCtrl    (msg : CommCtrlMsg)
deriving DecidableEq

structure CommMsg where
  round_index : Nat
  contents    : CommMsgContents
deriving DecidableEq

inductive SetupMsg
  | myPortInfo     (info : MyPortInfo)
  | leaderWave     (wave_leader : ConnectorId)
  | leaderAnnounce (tree_leader : ConnectorId)
  | youAreMyParent
deriving DecidableEq

inductive Msg
  | setupMsg (msg : SetupMsg)
  | commMsg  (msg : CommMsg)
deriving DecidableEq

end Reowolf
