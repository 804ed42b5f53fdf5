import Voodoo.Ast
import Voodoo.Bindings.CloseNotice
import Voodoo.Bindings.ClosedHandlers
import Voodoo.Bindings.Connector
import Voodoo.Bindings.ConnectorErrors
import Voodoo.Bindings.DeliveryOrder
import Voodoo.Bindings.InputSafety
import Voodoo.Bindings.InterfaceIds
import Voodoo.Bindings.SyncCall
import Voodoo.Bindings.WirePrimitives
import Voodoo.Bruja.Arguments
import Voodoo.Bruja.ConversionTypes
import Voodoo.Bruja.ConversionTypesToJs
import Voodoo.Bruja.Conversions
import Voodoo.Bruja.EmissionOrder
import Voodoo.Bruja.FieldPaths
import Voodoo.Bruja.FunctionLocals
import Voodoo.Bruja.FunctionScopes
import Voodoo.Bruja.GeneratedNames
import Voodoo.Bruja.GoLiterals
import Voodoo.Bruja.GoxxEmitter
import Voodoo.Bruja.HeaderTypes
import Voodoo.Bruja.LocalClashes
import Voodoo.Bruja.LocalNames
import Voodoo.Bruja.LocalScopes
import Voodoo.Bruja.PpExpr
import Voodoo.Bruja.Preprocess
import Voodoo.Bruja.ReferenceBalance
import Voodoo.Bruja.References
import Voodoo.Bruja.ReferencesFromJs
import Voodoo.Bruja.Resolver
import Voodoo.Bruja.StringSplices
import Voodoo.Bruja.TagRanges
import Voodoo.Bruja.TopLevelScopes
import Voodoo.Bruja.TsAst
import Voodoo.Bruja.TsLexer
import Voodoo.Bruja.TsParser
import Voodoo.Bruja.TsParserEnds
import Voodoo.Bruja.TsParserRuns
import Voodoo.Bruja.TypeAnnotations
import Voodoo.Compiler.Closure
import Voodoo.Compiler.CompleteTypes
import Voodoo.Compiler.Containment
import Voodoo.Compiler.Declarations
import Voodoo.Compiler.EmbedOrder
import Voodoo.Compiler.Embeds
import Voodoo.Compiler.EnumScan
import Voodoo.Compiler.Files
import Voodoo.Compiler.Filtered
import Voodoo.Compiler.Headers
import Voodoo.Compiler.IntLiterals
import Voodoo.Compiler.LexComplete
import Voodoo.Compiler.LexFaithful
import Voodoo.Compiler.Lexer
import Voodoo.Compiler.LexicalScope
import Voodoo.Compiler.MethodOrdinals
import Voodoo.Compiler.Names
import Voodoo.Compiler.Ordinals
import Voodoo.Compiler.Outputs
import Voodoo.Compiler.Parser
import Voodoo.Compiler.Paths
import Voodoo.Compiler.Prescan
import Voodoo.Compiler.ReadTargets
import Voodoo.Compiler.Runs
import Voodoo.Compiler.StringLiterals
import Voodoo.Compiler.TypeIntern
import Voodoo.Compiler.UnionTags
import Voodoo.Cppgc.Jobs
import Voodoo.Cppgc.Partition
import Voodoo.Evolution.Decode
import Voodoo.Evolution.Profile
import Voodoo.Evolution.RoundTrip
import Voodoo.Evolution.Versions
import Voodoo.Evolution.View
import Voodoo.Kernel.SimpleWatcher
import Voodoo.Lib.BaseFirst
import Voodoo.Lib.Boxes
import Voodoo.Lib.Command
import Voodoo.Lib.EState
import Voodoo.Lib.EcmaString
import Voodoo.Lib.GoString
import Voodoo.Lib.LastUse
import Voodoo.Lib.Ledger
import Voodoo.Lib.LittleEndian
import Voodoo.Lib.Machine
import Voodoo.Lib.Numbering
import Voodoo.Lib.PartialLoop
import Voodoo.Lib.Passes
import Voodoo.Lib.Ring
import Voodoo.Lib.Scoped
import Voodoo.Lib.SharedPtr
import Voodoo.Lib.StableOrder
import Voodoo.Lib.Utf
import Voodoo.Lib.Wiring
import Voodoo.Mojovm.ModuleIndex
import Voodoo.Mojovm.Sha256
import Voodoo.Mojovm.Vm
import Voodoo.Sandbox.Cage
import Voodoo.Sandbox.CageBounds
import Voodoo.Sandbox.CageRooms
import Voodoo.Sandbox.SandboxedPointer
import Voodoo.Sandbox.TypeTags
import Voodoo.Thunk.Invitations
import Voodoo.Whp.Atomic
import Voodoo.Whp.Contexts
import Voodoo.Whp.DataPipes
import Voodoo.Whp.Delivery
import Voodoo.Whp.Executor
import Voodoo.Whp.Fifo
import Voodoo.Whp.Frame
import Voodoo.Whp.Handles
import Voodoo.Whp.HeaderValidator
import Voodoo.Whp.Identity
import Voodoo.Whp.Invitation
import Voodoo.Whp.MapLifetimes
import Voodoo.Whp.Mapping
import Voodoo.Whp.Natives
import Voodoo.Whp.Ownership
import Voodoo.Whp.Pipes
import Voodoo.Whp.Raises
import Voodoo.Whp.Readiness
import Voodoo.Whp.Run
import Voodoo.Whp.Signals
import Voodoo.Whp.Streams
import Voodoo.Whp.Traps
import Voodoo.Whp.Wakeup
import Voodoo.Wire.Bounds
import Voodoo.Wire.Decodes
import Voodoo.Wire.Depth
import Voodoo.Wire.Encode
import Voodoo.Wire.HandleContext
import Voodoo.Wire.Layout
import Voodoo.Wire.Message
import Voodoo.Wire.Read
import Voodoo.Wire.Tolerance
