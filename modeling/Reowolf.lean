import Reowolf.Library.SortedMap
import Reowolf.Runtime.Common
import Reowolf.Runtime.Predicate
import Reowolf.Library.HashMap
import Reowolf.Runtime.PortInfo
import Reowolf.Runtime.Connector
import Reowolf.Library.Transition
import Reowolf.Runtime.Channel
import Reowolf.Runtime.ChannelLaw
import Reowolf.Runtime.Native
import Reowolf.Runtime.NativeBranches
import Reowolf.Runtime.ProtoComponent
import Reowolf.Runtime.EndedBranches
import Reowolf.Runtime.Topology
import Reowolf.Runtime.Setup
import Reowolf.Runtime.Election
import Reowolf.Runtime.Pairing
import Reowolf.Runtime.TreeConstruction
import Reowolf.Runtime.Solutions
import Reowolf.Runtime.LocalSolutions
import Reowolf.Runtime.Session
import Reowolf.Library.TreeConsensus
import Reowolf.Runtime.Agreement
import Reowolf.Runtime.Nonsync
import Reowolf.Runtime.SyncCall
import Reowolf.Runtime.Ownership
import Reowolf.Runtime.Freshness
import Reowolf.Runtime.Life
import Reowolf.Runtime.Routes
import Reowolf.Runtime.Udp
import Reowolf.Runtime.Delivery
import Reowolf.Protocol.Ast
import Reowolf.Protocol.Linking
import Reowolf.Protocol.LinkingStatements
import Reowolf.Protocol.Store
import Reowolf.Protocol.Operators
import Reowolf.Protocol.Executor
import Reowolf.Library.Machine
import Reowolf.Protocol.Control
import Reowolf.Protocol.Linked
import Reowolf.Protocol.LinkingSpec
import Reowolf.Protocol.LinkingScan
import Reowolf.Protocol.ControlFlow
import Reowolf.Protocol.StructuredControl
import Reowolf.Protocol.Program
import Reowolf.Protocol.PromptControl
import Reowolf.Protocol.Checked
import Reowolf.Protocol.ComponentState
import Reowolf.Protocol.PhaseDiscipline
import Reowolf.Parser.ExpressionRoundTrip
import Reowolf.Parser.RangeWalk
import Reowolf.Parser.NameResolution
import Reowolf.Parser.TypeCompletion
import Reowolf.Types.DetectionStops
import Reowolf.Types.EqualityConstraints
import Reowolf.Types.ConcreteConversion
import Reowolf.Runtime.BranchRuns
import Reowolf.Protocol.ExpressionRuns
import Reowolf.Protocol.CallFrames
import Reowolf.Types.PolymorphicConstraints
import Reowolf.Types.MonomorphSharing
import Reowolf.Protocol.Casting
import Reowolf.Protocol.Arithmetic
import Reowolf.Protocol.CompoundAssignment
import Reowolf.Protocol.IntegerLiterals
import Reowolf.Protocol.StackSlots
import Reowolf.Protocol.Shadowing
import Reowolf.Protocol.StructuralEquality
import Reowolf.Protocol.PatternBinding
import Reowolf.Protocol.ArgumentTransfer
import Reowolf.Types.EnumValues
import Reowolf.Protocol.EnumComparison
import Reowolf.Parser.LiteralDecoding
import Reowolf.Parser.RepeatedFeeds
import Reowolf.Parser.LosslessTokens
import Reowolf.Parser.ErrorReports
import Reowolf.Library.LossyDecoding
import Reowolf.Parser.ErrorStatements
import Reowolf.Runtime.Framing
import Reowolf.Runtime.Sending
import Reowolf.Runtime.BatchIdentity
import Reowolf.Runtime.ComponentFitness
import Reowolf.Protocol.ExpressionTraversals
import Reowolf.Library.Propagation
import Reowolf.Types.InferenceRuns
import Reowolf.Parser.Statements
import Reowolf.Parser.ExpressionGrammar
import Reowolf.Parser.AcceptedStatements
